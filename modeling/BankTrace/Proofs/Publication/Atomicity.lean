import BankTrace.Proofs.Publication.Stages

/-!
# Publication is atomic

Whatever fails on the way and wherever the process is killed, the output holds what it held before
or the whole trace. It changes at one step, which moves a partial file that was written to its end
and synced.
-/

namespace BankTrace.Publication

open World (run Keeps Ends)
open FileTree

/-! ## What is true of each step -/

def treeAfter (initial : FileTree) : List Step → FileTree
  | [] => initial
  | step :: _ => step.tree

/-- Whether a step has moved the partial file onto the output. -/
def Publishes (output : Path) (step : Step) : Prop :=
  ∃ part, partialPath output = .ok part ∧ step.operation = .rename part output ∧
    step.succeeded = true

/-- What is true of a step in a publication, given what was carried out before it. -/
structure AtomicStep (c : Config) (initial : FileTree) (here : Location) (step : Step)
    (older : List Step) : Prop where
  /-- The output holds what it held at the start or the whole trace. -/
  whole : step.tree.held? here c.output = initial.held? here c.output ∨
    ∃ number, step.tree.held? here c.output = some (.file number c.trace)
  /-- Only the step that publishes changes what the output holds. -/
  changed : step.tree.held? here c.output ≠ (treeAfter initial older).held? here c.output →
    Publishes c.output step
  published : Publishes c.output step →
    ∃ number, step.tree.held? here c.output = some (.file number c.trace)
  /-- Only the partial file is moved, only onto the output, and directly before that it held the
  whole trace and was synced. -/
  synced : ∀ source target, step.operation = .rename source target →
    partialPath c.output = .ok source ∧ target = c.output ∧ ∃ sync earlier number,
      older = sync :: earlier ∧ sync.operation = .syncFile (.file number) ∧
        sync.succeeded = true ∧ sync.tree.held? here source = some (.file number c.trace)

/-! ## Hosts under way -/

/-- A host on which a publication has been going on that has not published yet. -/
structure Underway (c : Config) (start host : FaultyHost) : Prop where
  here_eq : host.here = start.here
  tree_eq : host.tree = treeAfter start.tree host.history
  undisturbed : Undisturbed start.tree start.here c.output host.tree
  steps : ∀ step older, step :: older <:+ host.history →
    AtomicStep c start.tree start.here step older
  unpublished : ∀ step ∈ host.history, ¬ Publishes c.output step

theorem Underway.refl {c : Config} {start : FaultyHost} (h : start.history = []) :
    Underway c start start where
  here_eq := rfl
  tree_eq := by rw [h]; rfl
  undisturbed := (preparing_refl start.tree start.here c.output c.output).undisturbed
  steps := by simp [h]
  unpublished := by simp [h]

section

variable {c : Config} {start host : FaultyHost} {part : Path} {outer : List Name} {name : Name}

/-- A step that does not publish leaves the publication under way. -/
theorem Underway.after (h : Underway c start host)
    (hs : Premises start.tree start.here c.output part outer name) {operation : Operation}
    {succeeded : Bool} {tree : FileTree} (htree : Undisturbed start.tree start.here c.output tree)
    (hnot : ¬ Publishes c.output ⟨operation, succeeded, tree⟩)
    (hsynced : ∀ source target, operation = .rename source target →
      partialPath c.output = .ok source ∧ target = c.output ∧ ∃ sync earlier number,
        host.history = sync :: earlier ∧ sync.operation = .syncFile (.file number) ∧
          sync.succeeded = true ∧
          sync.tree.held? start.here source = some (.file number c.trace)) :
    Underway c start (host.after operation succeeded tree) where
  here_eq := h.here_eq
  tree_eq := rfl
  undisturbed := htree
  steps := by
    intro step older hsuffix
    rcases List.suffix_cons_iff.mp hsuffix with heq | holder
    · obtain ⟨rfl, rfl⟩ := List.cons.inj heq
      refine ⟨.inl (htree.held?_eq hs), fun hchanged => absurd ?_ hchanged,
        fun hpublishes => absurd hpublishes hnot, hsynced⟩
      rw [← h.tree_eq, htree.held?_eq hs, h.undisturbed.held?_eq hs]
    · exact h.steps step older holder
  unpublished := by
    intro step hstep
    rcases List.mem_cons.mp hstep with rfl | hstep
    · exact hnot
    · exact h.unpublished step hstep

/-- A step that moves nothing cannot publish. -/
theorem Underway.after_of_ne_rename (h : Underway c start host)
    (hs : Premises start.tree start.here c.output part outer name) {operation : Operation}
    {succeeded : Bool} {tree : FileTree} (htree : Undisturbed start.tree start.here c.output tree)
    (hrename : ∀ source target, operation ≠ .rename source target) :
    Underway c start (host.after operation succeeded tree) := by
  refine h.after hs htree ?_ fun source target heq => absurd heq (hrename source target)
  rintro ⟨source, -, heq, -⟩
  exact hrename _ _ heq

/-! ## Making the directory -/

/-- A host on which nothing was done yet but to make directories. -/
def Prepares (c : Config) (start : FaultyHost) (part : Path) (host : FaultyHost) : Prop :=
  Underway c start host ∧ Preparing start.tree start.here c.output part host.tree

theorem Prepares.look (hs : Premises start.tree start.here c.output part outer name) (p : Path)
    (succeeded : Bool) (h : Prepares c start part host) :
    Prepares c start part (host.after (.look p) succeeded host.tree) :=
  ⟨h.1.after_of_ne_rename hs h.2.undisturbed (by simp), h.2⟩

theorem keeps_makeDirectory (hs : Premises start.tree start.here c.output part outer name)
    {p : Path} (hsteps : p.steps <+: outer) (hrooted : p.isRooted = c.output.isRooted) :
    Keeps (Prepares c start part) (Host.makeDirectory (m := StateM FaultyHost) p) := by
  refine keeps_edit_of fun host succeeded tree h hchange => ?_
  obtain ⟨hway, htree⟩ := h
  have hpreparing : Preparing start.tree start.here c.output part tree := by
    rcases hchange with hmake | rfl
    · rw [hway.here_eq] at hmake
      exact htree.makeDirectory hs hsteps hrooted hmake
    · exact htree
  exact ⟨hway.after_of_ne_rename hs hpreparing.undisturbed (by simp), hpreparing⟩

theorem ends_prepareDirectory (hs : Premises start.tree start.here c.output part outer name)
    (h : Prepares c start part host) :
    Ends (fun _ => Prepares c start part) (Underway c start)
      (prepareDirectory (m := StateM FaultyHost) c.output) host := by
  refine ends_prepareDirectory_of h (fun _ h => h.1) (fun _ p succeeded h => h.look hs p succeeded)
    fun p hsteps hrooted => keeps_makeDirectory hs ?_ hrooted
  rwa [hs.dropLast_output] at hsteps

/-! ## Filling the partial file -/

/-- A host on which the partial file is there under its own number. -/
def Fills (c : Config) (start : FaultyHost) (part : Path) (number : Nat) (content : ByteArray)
    (host : FaultyHost) : Prop :=
  Underway c start host ∧
    Filling start.tree start.here c.output part number content host.tree

theorem ends_create (hs : Premises start.tree start.here c.output part outer name) {step : String}
    (h : Prepares c start part host) :
    Ends (fun (writer : FileWriter OpenFile) host => ∃ number,
        writer = { sink := { inner := ⟨.file number⟩ } } ∧
          Fills c start part number .empty host)
      (Underway c start)
      (Host.attempt step (FileWriter.create (m := StateM FaultyHost) part)) host := by
  obtain ⟨hway, htree⟩ := h
  refine Ends.mono (Q := fun (writer : FileWriter OpenFile) host => ∃ file,
    writer = { sink := { inner := file } } ∧ ∃ number, file.handle = .file number ∧
      Fills c start part number .empty host) (ends_create_of ?_ ?_) ?_ fun _ => id
  · intro succeeded file tree hcreate
    rw [hway.here_eq] at hcreate
    obtain ⟨number, rfl, hfilling⟩ := htree.create hs hcreate
    exact ⟨number, rfl, hway.after_of_ne_rename hs hfilling.undisturbed (by simp), hfilling⟩
  · intro succeeded
    exact hway.after_of_ne_rename hs htree.undisturbed (by simp)
  · rintro writer host ⟨⟨handle⟩, rfl, number, rfl, hfills⟩
    exact ⟨number, rfl, hfills⟩

def contentAt (here : Location) (part : Path) (tree : FileTree) : ByteArray :=
  match tree.entry? (direct here part) with
  | some (.file _ content) => content
  | _ => .empty

theorem contentAt_eq {number : Nat} {content : ByteArray} {tree : FileTree}
    (h : Filling start.tree start.here c.output part number content tree) :
    contentAt start.here part tree = content := by
  rw [contentAt, h.entry]

/-- The partial file is a sink that records, on every faulty host. -/
theorem partial_records (hs : Premises start.tree start.here c.output part outer name)
    (number : Nat) :
    Sink.Records (StateM FaultyHost)
      (fun (file : FileSink OpenFile) host => file.handle = .file number ∧
        ∃ content, Fills c start part number content host)
      (fun _ host => contentAt start.here part host.tree) := by
  refine records_of_keeps (fun content host h => contentAt_eq h.2) ?_
  intro content host bytes succeeded taken h
  have hfilling := h.2.changeFile hs (· ++ taken)
  exact ⟨h.1.after_of_ne_rename hs hfilling.undisturbed (by simp), hfilling⟩

/-- When the partial file was filled without a failure, it holds the whole trace. -/
theorem ends_fill (hs : Premises start.tree start.here c.output part outer name)
    (hc : c.IsValid) {number : Nat} (h : Fills c start part number .empty host) :
    Ends (fun out host => out = (c.lineCount, .file number) ∧
        Fills c start part number c.trace host)
      (Underway c start)
      (ExceptT.mk (fill (m := StateM FaultyHost) c { sink := { inner := ⟨.file number⟩ } }))
      host := by
  refine (ends_fill_records (partial_records hs number) hc ⟨rfl, .empty, h⟩
    (contentAt_eq h.2)).mono ?_ ?_
  · rintro out host ⟨⟨handle⟩, rfl, ⟨rfl, content, hfills⟩, hwhole⟩
    obtain rfl : content = c.trace := (contentAt_eq hfills.2).symm.trans hwhole
    exact ⟨rfl, hfills⟩
  · rintro host ⟨file, -, content, hway, -⟩
    exact hway

/-! ## Publishing -/

def Synced (c : Config) (start : FaultyHost) (part : Path) (number : Nat) (host : FaultyHost) :
    Prop :=
  Fills c start part number c.trace host ∧ ∃ sync earlier, host.history = sync :: earlier ∧
    sync.operation = .syncFile (.file number) ∧ sync.succeeded = true ∧
      sync.tree.held? start.here part = some (.file number c.trace)

structure Published (c : Config) (start host : FaultyHost) : Prop where
  tree_eq : host.tree = treeAfter start.tree host.history
  steps : ∀ step older, step :: older <:+ host.history →
    AtomicStep c start.tree start.here step older
  published : ∃ step older, host.history = step :: older ∧ Publishes c.output step

theorem ends_sync (hs : Premises start.tree start.here c.output part outer name) {number : Nat}
    (h : Fills c start part number c.trace host) :
    Ends (fun _ => Synced c start part number) (Underway c start)
      (Host.checked (Host.syncFile (m := StateM FaultyHost) (.file number))) host := by
  obtain ⟨hway, hfilling⟩ := h
  obtain ⟨result, tree, hrun, hok, herror⟩ := FaultyHost.run_edit (.syncFile (.file number))
    (fun tree _ => .ok tree) host
  obtain rfl : tree = host.tree := by
    cases result with
    | ok _ => exact (Except.ok.inj (hok rfl)).symm
    | error e => exact herror e rfl
  have hway' (succeeded : Bool) :
      Underway c start (host.after (.syncFile (.file number)) succeeded host.tree) :=
    hway.after_of_ne_rename hs hfilling.undisturbed (by simp)
  refine Ends.checked hrun (fun a ha => ?_) fun e _ => hway' _
  exact ⟨⟨hway' _, hfilling⟩, _, host.history, rfl, rfl, by rw [ha]; rfl, hfilling.held?_part hs⟩

theorem ends_rename (hs : Premises start.tree start.here c.output part outer name)
    (hpart : partialPath c.output = .ok part) {number : Nat} {step : String}
    (h : Synced c start part number host) :
    Ends (fun _ => Published c start) (Underway c start)
      (Host.attempt step (Host.rename (m := StateM FaultyHost) part c.output)) host := by
  obtain ⟨⟨hway, hfilling⟩, sync, earlier, hhistory, hsync⟩ := h
  obtain ⟨result, tree, hrun, hok, herror⟩ := FaultyHost.run_edit (.rename part c.output)
    (fun tree here => tree.rename here part c.output) host
  have hsynced : ∀ source target, Operation.rename part c.output = .rename source target →
      partialPath c.output = .ok source ∧ target = c.output ∧ ∃ sync earlier number,
        host.history = sync :: earlier ∧ sync.operation = .syncFile (.file number) ∧
          sync.succeeded = true ∧
          sync.tree.held? start.here source = some (.file number c.trace) := by
    rintro source target ⟨⟩
    exact ⟨hpart, rfl, sync, earlier, number, hhistory, hsync⟩
  refine Ends.attempt hrun (fun a ha => ?_) fun e he => ?_
  · have hrename := hok ha
    rw [hway.here_eq] at hrename
    have hheld := hfilling.rename hs hrename
    have hpublishes : Publishes c.output ⟨.rename part c.output, result.isOk, tree⟩ :=
      ⟨part, hpart, rfl, by rw [ha]; rfl⟩
    refine ⟨rfl, fun step older hsuffix => ?_, _, host.history, rfl, hpublishes⟩
    rcases List.suffix_cons_iff.mp hsuffix with heq | holder
    · obtain ⟨rfl, rfl⟩ := List.cons.inj heq
      exact ⟨.inr ⟨number, hheld⟩, fun _ => hpublishes, fun _ => ⟨number, hheld⟩, hsynced⟩
    · exact hway.steps step older holder
  · obtain rfl := herror e he
    refine hway.after hs hfilling.undisturbed ?_ hsynced
    rintro ⟨source, -, -, hsucceeded⟩
    rw [he] at hsucceeded
    simp [Except.isOk, Except.toBool] at hsucceeded

theorem keeps_removePartial (hs : Premises start.tree start.here c.output part outer name) :
    Keeps (Underway c start) (removePartial (m := StateM FaultyHost) part) := by
  have hremove : Keeps (Underway c start) (Host.removeFile (m := StateM FaultyHost) part) := by
    refine keeps_edit_of fun host succeeded tree hway hchange => ?_
    have hundisturbed : Undisturbed start.tree start.here c.output tree := by
      rcases hchange with hremoved | rfl
      · rw [hway.here_eq] at hremoved
        exact hway.undisturbed.remove hs hremoved
      · exact hway.undisturbed
    exact hway.after_of_ne_rename hs hundisturbed (by simp)
  unfold removePartial
  refine hremove.bind fun result => ?_
  split <;> exact Keeps.pure _

/-- The steps of a publication, from a host on which nothing was done yet. -/
theorem ends_writeAndRename (hs : Premises start.tree start.here c.output part outer name)
    (hc : c.IsValid) (hpart : partialPath c.output = .ok part) (hstart : start.history = []) :
    Ends (fun dataLines host => dataLines = c.lineCount ∧ Published c start host)
      (Underway c start) (writeAndRename (m := StateM FaultyHost) c part) start := by
  have hprepares : Prepares c start part start :=
    ⟨Underway.refl hstart, preparing_refl start.tree start.here c.output part⟩
  unfold writeAndRename
  refine (ends_prepareDirectory hs hprepares).bind fun _ host h => ?_
  apply (ends_create hs h).bind
  rintro writer host ⟨number, rfl, h⟩
  apply (ends_fill hs hc h).bind
  rintro out host ⟨rfl, h⟩
  refine (ends_sync hs h).bind fun _ host h => ?_
  refine (ends_rename hs hpart h).bind fun _ host h => ?_
  exact Ends.pure ⟨rfl, h⟩

/-! ## Whole publications -/

/-- What is true of a publication that came to an end, on a host it was started on. -/
structure Atomic (c : Config) (start : FaultyHost) (result : Except Error Summary)
    (host : FaultyHost) : Prop where
  tree_eq : host.tree = treeAfter start.tree host.history
  steps : ∀ step older, step :: older <:+ host.history →
    AtomicStep c start.tree start.here step older
  /-- It succeeds if and only if a step has published. -/
  ok_iff : ∀ summary, result = .ok summary ↔
    (∃ step ∈ host.history, Publishes c.output step) ∧
      c.dataLineCount? = some summary.dataLines ∧ summary.path = some c.output
  kept : ∀ e, result = .error e →
    host.tree.held? start.here c.output = start.tree.held? start.here c.output
  complete : ∀ summary, result = .ok summary →
    ∃ number, host.tree.held? start.here c.output = some (.file number c.trace)

theorem Underway.atomic (h : Underway c start host)
    (hs : Premises start.tree start.here c.output part outer name) (e : Error) :
    Atomic c start (.error e) host where
  tree_eq := h.tree_eq
  steps := h.steps
  ok_iff := fun summary => iff_of_false (by simp) fun hpublished =>
    let ⟨step, hstep, hpublishes⟩ := hpublished.1
    h.unpublished step hstep hpublishes
  kept := fun _ _ => h.undisturbed.held?_eq hs
  complete := by simp

theorem Published.atomic (h : Published c start host) (hc : c.IsValid) :
    Atomic c start (.ok ⟨c.lineCount, some c.output⟩) host where
  tree_eq := h.tree_eq
  steps := h.steps
  ok_iff := by
    obtain ⟨step, older, hhistory, hpublishes⟩ := h.published
    have hmem : step ∈ host.history := by rw [hhistory]; exact List.mem_cons_self
    rintro ⟨dataLines, path⟩
    simp only [Except.ok.injEq, Summary.mk.injEq, hc.dataLineCount?, Option.some.injEq]
    constructor
    · rintro ⟨rfl, rfl⟩
      exact ⟨⟨step, hmem, hpublishes⟩, rfl, rfl⟩
    · rintro ⟨-, rfl, rfl⟩
      exact ⟨rfl, rfl⟩
  kept := by simp
  complete := by
    intro summary _
    obtain ⟨step, older, hhistory, hpublishes⟩ := h.published
    rw [h.tree_eq, hhistory]
    exact (h.steps step older (by rw [hhistory])).published hpublishes

end

/-- A publication is atomic, whatever faults meet its operations. It is asked of the tree at the
start that no link is on the way of the output, and that what is at the partial path, if anything,
is a file and not the one at the output. -/
theorem publish_atomic (c : Config) (start : FaultyHost) (hstart : start.history = [])
    (hok : c.validate = .ok ()) (hback : .parent ∉ c.output.components)
    (hlinks : start.tree.LinkFree start.here c.output)
    (hpart : ∀ part, partialPath c.output = .ok part →
      ∀ e, start.tree.entry? (direct start.here part) = some e →
        (∃ number content, e = .file number content) ∧
          start.tree.isAlso (direct start.here c.output) e = false) :
    let out := run (publish (m := StateM FaultyHost) c) start
    Atomic c start out.1 out.2 := by
  have hc := (Config.validate_eq_ok_iff c).mp hok
  cases hpath : partialPath c.output with
  | error e =>
      have hrun : run (publish (m := StateM FaultyHost) c) start =
          (.error (.config e), start) := by
        unfold publish
        rw [hok, hpath]
        rfl
      rw [hrun]
      refine ⟨by rw [hstart]; rfl, by simp [hstart], ?_, fun _ _ => rfl, by simp⟩
      simp [hstart]
  | ok part =>
      obtain ⟨outer, name, hsibling⟩ := partialPath_eq_ok hpath
      have hs : Premises start.tree start.here c.output part outer name :=
        ⟨hsibling, Path.dotDot_not_mem_steps hback, hlinks, hpart part hpath⟩
      have hends := ends_writeAndRename hs hc hpath hstart
      have hreport (event : Event) :
          run (Host.report (m := StateM FaultyHost) event) start = ((), start) := rfl
      unfold publish
      rw [hok, hpath]
      simp only [World.run_bind, hreport]
      unfold Ends at hends
      cases hrun : run (writeAndRename (m := StateM FaultyHost) c part).run start with
      | mk result host =>
          rw [hrun] at hends
          cases result with
          | error e =>
              simp only [World.run_bind, World.run_pure]
              exact (keeps_removePartial hs host hends).atomic hs e
          | ok dataLines =>
              obtain ⟨rfl, hpublished⟩ := hends
              simp only [World.run_bind, World.run_pure]
              exact hpublished.atomic hc

/-- Both the output and the partial path are taken, the partial file has a second name, one write
is cut short and a later one fails half way. -/
theorem publish_atomic_over_leftovers :
    let c : Config :=
      { output := ⟨[0x64, 0x2F, 0x74]⟩, rowCount := 1, burstCount := 1, bankOrder := [3] }
    let start : FaultyHost := {
      tree := ⟨[([[0x64]], .directory), ([[0x74], [0x64]], .file 0 ⟨#[0x6F]⟩),
        ([[0x74] ++ partialSuffix, [0x64]], .file 1 ⟨#[0x70]⟩), ([[0x6B]], .file 1 ⟨#[0x70]⟩)]⟩
      here := []
      faults := fun i => if i = 2 then .short 5 else if i = 3 then .failure .noSpace 7 else .none }
    let out := run (publish (m := StateM FaultyHost) c) start
    start.history = [] ∧ c.validate = .ok () ∧ .parent ∉ c.output.components ∧
      start.tree.LinkFree start.here c.output ∧
      (∃ part, partialPath c.output = .ok part ∧
        ∃ content, start.tree.entry? (direct start.here part) = some (.file 1 content)) ∧
      Atomic c start out.1 out.2 := by
  intro c start out
  have hstart : start.history = [] := rfl
  have hok : c.validate = .ok () := by decide
  have hback : .parent ∉ c.output.components := by decide
  have hdirectory : start.tree.entry? [[0x64]] = some .directory := rfl
  have hfile : start.tree.entry? [[0x74], [0x64]] = some (.file 0 ⟨#[0x6F]⟩) := rfl
  have hsteps : c.output.steps = [[0x64], [0x74]] := by decide
  have hlinks : start.tree.LinkFree start.here c.output := by
    rw [LinkFree, hsteps]
    refine ⟨fun target h => ?_, fun target h => ?_, trivial⟩
    · exact absurd (hdirectory.symm.trans h) (by simp)
    · exact absurd (hfile.symm.trans h) (by simp)
  have hpath : partialPath c.output =
      .ok ⟨[0x64, 0x2F, 0x74] ++ partialSuffix⟩ := by decide +kernel
  have hentry : start.tree.entry? (direct start.here ⟨[0x64, 0x2F, 0x74] ++ partialSuffix⟩) =
      some (.file 1 ⟨#[0x70]⟩) := rfl
  have halso : start.tree.isAlso (direct start.here c.output) (.file 1 ⟨#[0x70]⟩) = false := by
    decide +kernel
  clear_value c start
  refine ⟨hstart, hok, hback, hlinks, ⟨_, hpath, _, hentry⟩, ?_⟩
  refine publish_atomic c start hstart hok hback hlinks fun part hpart e he => ?_
  obtain rfl := Except.ok.inj (hpath.symm.trans hpart)
  obtain rfl := Option.some.inj (hentry.symm.trans he)
  exact ⟨⟨1, _, rfl⟩, halso⟩

end BankTrace.Publication
