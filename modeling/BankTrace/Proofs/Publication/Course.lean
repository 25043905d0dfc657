import BankTrace.Proofs.FileTree.Places
import BankTrace.Proofs.Publication.Stages

/-!
# The course of a publication

A publication passes through trees of three kinds: those before the partial file is open, those
while it is written, and those that a failure may leave. What it leaves follows from what the
operations on the tree do to each kind, whatever faults there were.
-/

namespace BankTrace

open World (run Keeps Ends)

theorem Instruction.size_encode_pos (x : Instruction) : 0 < x.encode.size := by
  have hend : 0 < "\n".utf8ByteSize := by decide
  simp [Instruction.encode, hend]

theorem Config.trace_ne_empty (c : Config) : c.trace ≠ .empty := by
  intro h
  obtain ⟨x, xs, hinstructions⟩ : ∃ x xs, c.instructions = x :: xs :=
    List.exists_cons_of_ne_nil (by simp [Config.instructions])
  have hsize := congrArg ByteArray.size h
  rw [Config.trace, hinstructions, Instruction.encodeAll_cons, ByteArray.size_append] at hsize
  have := x.size_encode_pos
  rw [ByteArray.size_empty] at hsize
  omega

namespace Publication

open FileTree

/-! ## Hosts with a tree of a kind -/

/-- A host that works where another does, with a tree of a kind. -/
structure HasTree (start : FaultyHost) (P : FileTree → Prop) (host : FaultyHost) : Prop where
  here_eq : host.here = start.here
  tree : P host.tree

def contentIn (l : Location) (t : FileTree) : ByteArray := ((t.entry? l).bind content?).getD .empty

theorem contentIn_eq {t : FileTree} {l : Location} {number : Nat} {content : ByteArray}
    (h : t.entry? l = some (.file number content)) : contentIn l t = content := by
  rw [contentIn, h]
  rfl

section

variable {start host : FaultyHost} {P P' : FileTree → Prop}

theorem HasTree.after (h : HasTree start P host) {operation : Operation} {succeeded : Bool}
    {tree : FileTree} (htree : P' tree) : HasTree start P' (host.after operation succeeded tree) :=
  ⟨h.here_eq, htree⟩

theorem HasTree.mono (h : HasTree start P host) (himp : ∀ t, P t → P' t) : HasTree start P' host :=
  ⟨h.here_eq, himp _ h.tree⟩

/-- A device that never has room is a sink that records nothing. -/
theorem full_records_of {I : FaultyHost → Prop}
    (hwrite : ∀ host bytes, I host → I (host.after (.writeFile .full bytes) false host.tree)) :
    Sink.Records (StateM FaultyHost)
      (fun (file : FileSink OpenFile) host => file.handle = .full ∧ I host)
      (fun _ _ => .empty) where
  write := by
    rintro ⟨handle⟩ host bytes ⟨hhandle, h⟩
    obtain rfl : handle = .full := hhandle
    exact ⟨.error .noSpace, ⟨.full⟩, host.after (.writeFile .full bytes) false host.tree, rfl,
      ⟨rfl, hwrite host bytes h⟩, by simp⟩
  flush := by
    rintro file host hvalid
    exact ⟨.ok (), file, host, rfl, hvalid, fun _ => rfl⟩

theorem full_records (start : FaultyHost) (P : FileTree → Prop) :
    Sink.Records (StateM FaultyHost)
      (fun (file : FileSink OpenFile) host => file.handle = .full ∧ HasTree start P host)
      (fun _ _ => .empty) :=
  full_records_of fun _ _ h => h.after h.tree

end

/-- A host with a tree of a kind on which every step since the start has left a tree that may be
seen. -/
structure Watched (start : FaultyHost) (Seen P : FileTree → Prop) (host : FaultyHost) : Prop
    extends HasTree start P host where
  passed : ∀ step ∈ host.history, step ∈ start.history ∨ Seen step.tree

section

variable {start host : FaultyHost} {Seen P P' : FileTree → Prop}

theorem watched_start (htree : P start.tree) : Watched start Seen P start :=
  ⟨⟨rfl, htree⟩, fun _ hstep => .inl hstep⟩

theorem Watched.mono (h : Watched start Seen P host) (himp : ∀ t, P t → P' t) :
    Watched start Seen P' host :=
  ⟨h.toHasTree.mono himp, h.passed⟩

theorem Watched.after (h : Watched start Seen P host) {operation : Operation} {succeeded : Bool}
    {tree : FileTree} (hseen : Seen tree) (htree : P' tree) :
    Watched start Seen P' (host.after operation succeeded tree) :=
  ⟨h.toHasTree.after htree, List.forall_mem_cons.mpr ⟨.inr hseen, h.passed⟩⟩

theorem keeps_edit (hseen : ∀ t, P t → Seen t) {operation : Operation}
    {change : FileTree → Location → Except IoError FileTree}
    (hchange : ∀ t t', P t → change t start.here = .ok t' → P t') :
    Keeps (Watched start Seen P) (FaultyHost.edit operation change) := by
  refine keeps_edit_of fun host succeeded tree h hresult => ?_
  have htree : P tree := by
    rcases hresult with hok | rfl
    · rw [h.here_eq] at hok
      exact hchange _ _ h.tree hok
    · exact h.tree
  exact h.after (hseen _ htree) htree

end

/-! ## The kinds of trees -/

/-- How the operations of a publication lead through trees of three kinds. `Filled` knows the
location and the number of the file that is written, and what it holds so far. -/
structure Course (here : Location) (output part : Path) (Prepared : FileTree → Prop)
    (Filled : Location → Nat → ByteArray → FileTree → Prop) (Failed : FileTree → Prop) : Prop where
  makeDirectory : ∀ p t t', p.steps <+: output.steps.dropLast → p.isRooted = output.isRooted →
    Prepared t → t.makeDirectory here p = .ok t' → Prepared t'
  create : ∀ t t' number, Prepared t → t.create here part = .ok (.file number, t') →
    ∃ l, Filled l number .empty t'
  device : ∀ t t', Prepared t → t.create here part = .ok (.full, t') → Failed t'
  write : ∀ t l number content change, Filled l number content t →
    Filled l number (change content) (t.changeFile number change)
  entry_eq : ∀ t l number content, Filled l number content t →
    t.entry? l = some (.file number content)
  failed_of_prepared : ∀ t, Prepared t → Failed t
  failed_of_filled : ∀ t l number content, Filled l number content t → Failed t

/-- The file that is open after its creation: an empty one, or a device that never has room. -/
def Opens (start : FaultyHost) (Seen : FileTree → Prop)
    (Filled : Location → Nat → ByteArray → FileTree → Prop) (Failed : FileTree → Prop)
    (file : FileSink OpenFile) (host : FaultyHost) : Prop :=
  (∃ l number, file.handle = .file number ∧ Watched start Seen (Filled l number .empty) host) ∨
    file.handle = .full ∧ Watched start Seen Failed host

section

variable {c : Config} {start host : FaultyHost} {part : Path}
  {Seen Prepared Failed : FileTree → Prop} {Filled : Location → Nat → ByteArray → FileTree → Prop}
  {l : Location} {number : Nat}

/-! ## The stages

What a failure may leave may be seen, and with it all trees on the way. -/

theorem Course.ends_prepareDirectory (h : Course start.here c.output part Prepared Filled Failed)
    (hseen : ∀ t, Failed t → Seen t) (hhost : Watched start Seen Prepared host) :
    Ends (fun _ => Watched start Seen Prepared) (Watched start Seen Failed)
      (prepareDirectory (m := StateM FaultyHost) c.output) host := by
  have hprepared (t : FileTree) (ht : Prepared t) : Seen t := hseen t (h.failed_of_prepared t ht)
  exact ends_prepareDirectory_of hhost (fun _ hhost => hhost.mono h.failed_of_prepared)
    (fun _ _ _ hhost => hhost.after (hprepared _ hhost.tree) hhost.tree) fun p hsteps hrooted =>
      keeps_edit hprepared fun t t' => h.makeDirectory p t t' hsteps hrooted

theorem Course.ends_create (h : Course start.here c.output part Prepared Filled Failed)
    (hseen : ∀ t, Failed t → Seen t) {step : String} (hhost : Watched start Seen Prepared host) :
    Ends (fun writer host => ∃ file, writer = { sink := { inner := file } } ∧
        Opens start Seen Filled Failed file host)
      (Watched start Seen Failed)
      (Host.attempt step (FileWriter.create (m := StateM FaultyHost) part)) host := by
  refine ends_create_of (fun succeeded file tree hcreate => ?_) fun succeeded => ?_
  · rw [hhost.here_eq] at hcreate
    cases file with
    | file number =>
        obtain ⟨l, hfilled⟩ := h.create _ _ _ hhost.tree hcreate
        exact .inl ⟨l, number, rfl,
          hhost.after (hseen _ (h.failed_of_filled _ _ _ _ hfilled)) hfilled⟩
    | full =>
        have hfailed := h.device _ _ hhost.tree hcreate
        exact .inr ⟨rfl, hhost.after (hseen _ hfailed) hfailed⟩
  · have hfailed := h.failed_of_prepared _ hhost.tree
    exact hhost.after (hseen _ hfailed) hfailed

theorem Course.file_records (h : Course start.here c.output part Prepared Filled Failed)
    (hseen : ∀ t, Failed t → Seen t) (l : Location) (number : Nat) :
    Sink.Records (StateM FaultyHost)
      (fun (file : FileSink OpenFile) host => file.handle = .file number ∧
        ∃ content, Watched start Seen (Filled l number content) host)
      (fun _ host => contentIn l host.tree) := by
  refine records_of_keeps (fun content host hhost => ?_) ?_
  · exact contentIn_eq (h.entry_eq _ _ _ _ hhost.tree)
  · intro content host bytes succeeded taken hhost
    have hfilled := h.write _ _ _ _ (· ++ taken) hhost.tree
    exact hhost.after (hseen _ (h.failed_of_filled _ _ _ _ hfilled)) hfilled

theorem Course.ends_fill (h : Course start.here c.output part Prepared Filled Failed)
    (hseen : ∀ t, Failed t → Seen t) (hc : c.IsValid) {file : FileSink OpenFile}
    (hopens : Opens start Seen Filled Failed file host) :
    Ends (fun _ host => ∃ l number, Watched start Seen (Filled l number c.trace) host)
      (Watched start Seen Failed)
      (ExceptT.mk (fill (m := StateM FaultyHost) c { sink := { inner := file } })) host := by
  rcases hopens with ⟨l, number, hhandle, hfilled⟩ | ⟨hhandle, hfailed⟩
  · have hempty := contentIn_eq (h.entry_eq _ _ _ _ hfilled.tree)
    refine (ends_fill_records (h.file_records hseen l number) hc ⟨hhandle, .empty, hfilled⟩
      hempty).mono ?_ ?_
    · rintro out host ⟨file, rfl, ⟨-, content, hfilled⟩, hwhole⟩
      obtain rfl : content = c.trace :=
        (contentIn_eq (h.entry_eq _ _ _ _ hfilled.tree)).symm.trans hwhole
      exact ⟨l, number, hfilled⟩
    · rintro host ⟨file, -, content, hfilled⟩
      exact hfilled.mono fun t => h.failed_of_filled t l number content
  · have hrecords := full_records_of (I := Watched start Seen Failed)
      fun host bytes hhost => hhost.after (hseen _ hhost.tree) hhost.tree
    refine (ends_fill_records hrecords hc ⟨hhandle, hfailed⟩ rfl).mono ?_ ?_
    · rintro out host ⟨file, -, -, hwhole⟩
      exact absurd hwhole.symm c.trace_ne_empty
    · rintro host ⟨file, -, hfailed⟩
      exact hfailed

/-- A host whose last step has moved a file onto the output, in a tree of a kind. -/
structure Moves (start : FaultyHost) (output part : Path) (Seen Filled : FileTree → Prop)
    (host : FaultyHost) : Prop where
  here_eq : host.here = start.here
  moved : ∃ t, Filled t ∧ t.rename start.here part output = .ok host.tree
  passed : ∃ step older, host.history = step :: older ∧ step.tree = host.tree ∧
    ∀ step ∈ older, step ∈ start.history ∨ Seen step.tree

theorem Course.ends_rename (h : Course start.here c.output part Prepared Filled Failed)
    (hseen : ∀ t, Failed t → Seen t) {step : String}
    (hhost : Watched start Seen (Filled l number c.trace) host) :
    Ends (fun _ => Moves start c.output part Seen (Filled l number c.trace))
      (Watched start Seen Failed)
      (Host.attempt step (Host.rename (m := StateM FaultyHost) part c.output)) host := by
  obtain ⟨result, tree, hrun, hok, herror⟩ := FaultyHost.run_edit (.rename part c.output)
    (fun tree here => tree.rename here part c.output) host
  refine Ends.attempt hrun (fun _ hresult => ?_) fun e hresult => ?_
  · have hrename := hok hresult
    rw [hhost.here_eq] at hrename
    exact ⟨hhost.here_eq, ⟨host.tree, hhost.tree, hrename⟩, _, _, rfl, rfl, hhost.passed⟩
  · rw [herror e hresult]
    have hfailed := h.failed_of_filled _ _ _ _ hhost.tree
    exact hhost.after (hseen _ hfailed) hfailed

variable (Seen) in
/-- The stages in a row, and what may be seen on the way. -/
theorem Course.ends_stages (h : Course start.here c.output part Prepared Filled Failed)
    (hseen : ∀ t, Failed t → Seen t) (hc : c.IsValid) (hstart : Prepared start.tree) :
    Ends (fun _ host => ∃ l number,
        Moves start c.output part Seen (Filled l number c.trace) host)
      (Watched start Seen Failed) (writeAndRename (m := StateM FaultyHost) c part) start := by
  unfold writeAndRename
  refine (h.ends_prepareDirectory hseen (watched_start hstart)).bind fun _ host hhost => ?_
  apply (h.ends_create hseen hhost).bind
  rintro writer host ⟨file, rfl, hopens⟩
  apply (h.ends_fill hseen hc hopens).bind
  rintro ⟨dataLines, handle⟩ host ⟨l, number, hfilled⟩
  have hfailed (t : FileTree) (ht : Filled l number c.trace t) : Failed t :=
    h.failed_of_filled _ _ _ _ ht
  -- A sync leaves the tree as it is, whether or not it fails.
  have hsync : Keeps (Watched start Seen (Filled l number c.trace))
      (Host.syncFile (m := StateM FaultyHost) handle) :=
    keeps_edit (fun t ht => hseen t (hfailed t ht))
      fun t t' hfilled heq => Except.ok.inj heq ▸ hfilled
  refine Ends.bind (Ends.checked rfl (fun _ _ => hsync host hfilled) fun _ _ =>
    (hsync host hfilled).mono hfailed) fun _ host hfilled => ?_
  exact (h.ends_rename hseen hfilled).bind fun _ host hmoves => Ends.pure ⟨l, number, hmoves⟩

theorem Course.ends_writeAndRename (h : Course start.here c.output part Prepared Filled Failed)
    (hc : c.IsValid) (hstart : Prepared start.tree) :
    Ends (fun _ host => ∃ l number t, Filled l number c.trace t ∧
        t.rename start.here part c.output = .ok host.tree)
      (HasTree start Failed) (writeAndRename (m := StateM FaultyHost) c part) start := by
  refine (h.ends_stages (fun _ => True) (fun _ _ => trivial) hc hstart).mono ?_
    fun _ hwatched => hwatched.toHasTree
  rintro dataLines host ⟨l, number, hmoves⟩
  obtain ⟨t, hfilled, hrename⟩ := hmoves.moved
  exact ⟨l, number, t, hfilled, hrename⟩

end

/-! ## Whole publications -/

/-- Removing the partial file is one operation, which fails without a change or removes the
file. -/
theorem run_removePartial (part : Path) (host : FaultyHost) :
    ∃ succeeded tree, (run (removePartial (m := StateM FaultyHost) part) host).2 =
        host.after (.removeFile part) succeeded tree ∧
      (succeeded = true → host.tree.remove host.here part = .ok tree) ∧
      (succeeded = false → tree = host.tree) := by
  obtain ⟨result, tree, hrun, hok, herror⟩ := FaultyHost.run_edit (.removeFile part)
    (fun tree here => tree.remove here part) host
  have hremove : run (Host.removeFile (m := StateM FaultyHost) part) host =
      (result, host.after (.removeFile part) result.isOk tree) := hrun
  refine ⟨result.isOk, tree, ?_, ?_⟩
  · unfold removePartial
    rw [World.run_bind, hremove]
    split <;> rfl
  · cases result with
    | ok _ => exact ⟨fun _ => hok rfl, by simp [Except.isOk, Except.toBool]⟩
    | error e => exact ⟨by simp [Except.isOk, Except.toBool], fun _ => herror e rfl⟩

end Publication

end BankTrace
