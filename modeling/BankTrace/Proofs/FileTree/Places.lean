import BankTrace.Proofs.FileTree.Reaches

/-!
# Places of paths

The place of a path is where its own entry is, be it a link or missing. Following the path is
reaching the directory around its place and going on from there.
-/

namespace BankTrace.FileTree

/-- Where the entry of a path is, a link at the end of the path not being followed. -/
def place? (t : FileTree) (here : Location) (p : Path) : Option Location :=
  match t.holder here p with
  | .ok (directory, some name) => some (name :: directory)
  | _ => none

/-- A path has its place in a directory, under a name, and in the directory so many of the links
that may be followed are left. -/
structure Stands (t : FileTree) (here : Location) (p : Path) (left : Nat) (directory : Location)
    (name : Name) : Prop where
  fault : pathFault? p = none
  begins : t.entry? (start here p) = some .directory
  last : (names p).getLast? = some name
  ne_dot : name ≠ Path.dot
  ne_dotDot : name ≠ Path.dotDot
  isDirectory : t.entry? directory = some .directory
  reaches : Reaches t maxLinkCount (start here p) (moves (names p).dropLast) left directory

section

variable {t t' : FileTree} {here l directory : Location} {p : Path} {left : Nat} {name : Name}
  {purpose : Purpose}

theorem holder_eq_ok_iff :
    t.holder here p = .ok (directory, some name) ↔ ∃ left, t.Stands here p left directory name := by
  unfold holder
  constructor
  · intro h
    obtain ⟨d, hd, h⟩ := bind_eq_ok_iff.mp h
    obtain ⟨hfault, hbegins, hfollow⟩ := walk_eq_ok_iff.mp hd
    by_cases hdirectory : t.isDirectory d = true
    · simp only [hdirectory] at h
      obtain ⟨rfl, hname⟩ := Prod.mk.inj (Except.ok.inj h)
      obtain ⟨hlast, hnot⟩ := Option.filter_eq_some_iff.mp hname
      obtain ⟨hdot, hdotDot⟩ : name ≠ Path.dot ∧ name ≠ Path.dotDot := by simpa using hnot
      have he := isDirectory_iff.mp hdirectory
      obtain ⟨left, hreaches⟩ := (leads_iff.mpr hfollow).reaches (.inl he)
      exact ⟨left, hfault, hbegins, hlast, hdot, hdotDot, he, hreaches⟩
    · simp [hdirectory, bind, Except.bind] at h
  · rintro ⟨left, h⟩
    refine bind_eq_ok_iff.mpr ⟨directory, walk_eq_ok_iff.mpr ⟨h.fault, h.begins, ?_⟩, ?_⟩
    · exact h.reaches.leads_find.follow
    · simp [isDirectory_iff.mpr h.isDirectory, h.last, h.ne_dot, h.ne_dotDot]

theorem place?_eq_some_iff :
    t.place? here p = some l ↔
      ∃ left directory name, t.Stands here p left directory name ∧ l = name :: directory := by
  unfold place?
  constructor
  · intro h
    split at h
    next directory name hholder =>
      obtain ⟨left, hstands⟩ := holder_eq_ok_iff.mp hholder
      exact ⟨left, directory, name, hstands, (Option.some.inj h).symm⟩
    next => simp at h
  · rintro ⟨left, directory, name, hstands, rfl⟩
    rw [holder_eq_ok_iff.mpr ⟨left, hstands⟩]

theorem Stands.place? (h : t.Stands here p left directory name) :
    t.place? here p = some (name :: directory) :=
  place?_eq_some_iff.mpr ⟨left, directory, name, h, rfl⟩

theorem names_of_last (h : (names p).getLast? = some name) :
    names p = (names p).dropLast ++ [name] := by
  obtain ⟨around, hnames⟩ := List.getLast?_eq_some_iff.mp h
  rw [hnames, List.dropLast_concat]

theorem steps_of_last (h : (names p).getLast? = some name) (hdot : name ≠ Path.dot) :
    p.steps = moves (names p).dropLast ++ [name] := by
  rw [← moves_names, names_of_last h, moves_append, List.dropLast_concat, moves_cons hdot]
  rfl

theorem Stands.names_eq (h : t.Stands here p left directory name) :
    names p = (names p).dropLast ++ [name] :=
  names_of_last h.last

theorem Stands.steps_eq (h : t.Stands here p left directory name) :
    p.steps = moves (names p).dropLast ++ [name] :=
  steps_of_last h.last h.ne_dot

theorem Stands.mono (hguides : Guides t t') (h : t.Stands here p left directory name) :
    t'.Stands here p left directory name :=
  ⟨h.fault, hguides.directory h.begins, h.last, h.ne_dot, h.ne_dotDot,
    hguides.directory h.isDirectory, h.reaches.mono hguides⟩

theorem Stands.locate_eq_ok_iff (h : t.Stands here p left directory name) :
    t.locate purpose here p = .ok l ↔ Leads t purpose left p.endsInSlash directory [name] l := by
  rw [locate_eq_ok_iff_leads, h.names_eq]
  constructor
  · rintro ⟨-, -, hleads⟩
    obtain ⟨left', directory', hreaches, hlast⟩ := hleads.of_append (List.cons_ne_nil _ _)
    obtain ⟨rfl, rfl⟩ := h.reaches.unique hreaches
    exact hlast
  · intro hlast
    exact ⟨h.fault, h.begins, h.reaches.leads hlast (List.cons_ne_nil _ _)⟩

theorem Stands.locate_of_not_turns (h : t.Stands here p left directory name)
    (hshort : name.length ≤ maxNameLength) (hslash : p.endsInSlash = false)
    (hturns : ¬ t.Turns (name :: directory)) :
    t.locate purpose here p = .ok (name :: directory) := by
  refine h.locate_eq_ok_iff.mpr (.last ⟨h.ne_dot, h.ne_dotDot, hshort⟩ ?_ hturns ?_)
  · rintro ⟨-, hclosed, -⟩
    simp [hslash] at hclosed
  · simp [hslash]

/-- A path that leads to a location still stands where it did in a tree that lacks some directories
and links but lets it lead there. -/
theorem Stands.of_locate (h : t.Stands here p left directory name) (hguides : Guides t' t)
    (hdirectory : t'.entry? directory = some .directory)
    (hlocate : t'.locate purpose here p = .ok l) : t'.Stands here p left directory name := by
  obtain ⟨-, hbegins, hleads⟩ := locate_eq_ok_iff_leads.mp hlocate
  rw [h.names_eq] at hleads
  obtain ⟨left', mid, hreaches, -⟩ := hleads.of_append (List.cons_ne_nil _ _)
  obtain ⟨rfl, rfl⟩ := (hreaches.mono hguides).unique h.reaches
  exact ⟨h.fault, hbegins, h.last, h.ne_dot, h.ne_dotDot, hdirectory, hreaches⟩

/-! ## Reading -/

def content? : Entry → Option ByteArray
  | .directory => none
  | .file _ content => some content
  | .link _ | .full => some .empty

theorem find_eq_ok_iff {e : Entry} :
    t.find here p = .ok (l, e) ↔ t.locate .find here p = .ok l ∧ t.entry? l = some e := by
  unfold find
  rw [bind_eq_ok_iff]
  constructor
  · rintro ⟨l', hl, h⟩
    cases he : t.entry? l' with
    | none => simp [he] at h
    | some e' =>
        obtain ⟨rfl, rfl⟩ : l' = l ∧ e' = e := by simpa [he] using h
        exact ⟨hl, he⟩
  · rintro ⟨hl, he⟩
    exact ⟨l, hl, by simp [he]⟩

theorem read_eq_ok_iff {content : ByteArray} :
    t.read here p = .ok content ↔
      ∃ l e, t.locate .find here p = .ok l ∧ t.entry? l = some e ∧ content? e = some content := by
  unfold read
  rw [bind_eq_ok_iff]
  constructor
  · rintro ⟨⟨l, e⟩, hfind, h⟩
    obtain ⟨hl, he⟩ := find_eq_ok_iff.mp hfind
    refine ⟨l, e, hl, he, ?_⟩
    cases e <;> simp [content?] at h ⊢ <;> exact h
  · rintro ⟨l, e, hl, he, h⟩
    refine ⟨(l, e), find_eq_ok_iff.mpr ⟨hl, he⟩, ?_⟩
    cases e <;> simp [content?] at h ⊢ <;> exact h

/-- A path leads to where it led to if what is there is the same and the tree leads alike. -/
theorem locate_of_entry?_eq (hguides : Guides t t') (hend : t'.entry? l = t.entry? l)
    (h : t.locate purpose here p = .ok l) : t'.locate purpose here p = .ok l := by
  refine locate_of_guides hguides id (fun hnot => ?_) (fun hnone _ => hend.trans hnone) h
  rwa [Turns, hend]

/-- A path reads as it read if what it led to is still there and the tree leads alike. -/
theorem read_of_guides (hguides : Guides t t')
    (hsame : ∀ l e, t.locate .find here p = .ok l → t.entry? l = some e → t'.entry? l = some e)
    {content : ByteArray} (h : t.read here p = .ok content) : t'.read here p = .ok content := by
  obtain ⟨l, e, hl, he, hcontent⟩ := read_eq_ok_iff.mp h
  have he' := hsame l e hl he
  exact read_eq_ok_iff.mpr
    ⟨l, e, locate_of_entry?_eq hguides (he'.trans he.symm) hl, he', hcontent⟩

/-- A path reads alike in trees that lead alike, if they agree on where it leads. -/
theorem read_iff_of_alike (halike : Alike t t')
    (hsame : ∀ l, t.locate .find here p = .ok l → t'.entry? l = t.entry? l) (content : ByteArray) :
    t'.read here p = .ok content ↔ t.read here p = .ok content := by
  constructor
  · intro h
    obtain ⟨l, e, hl, he, hcontent⟩ := read_eq_ok_iff.mp h
    have hlocate : t.locate .find here p = .ok l :=
      locate_of_guides halike.back id (mt halike.forth.turns) (by simp [he]) hl
    exact read_eq_ok_iff.mpr ⟨l, e, hlocate, hsame l hlocate ▸ he, hcontent⟩
  · exact read_of_guides halike.forth fun l e hl he => (hsame l hl).trans he

/-! ## Removing and placing -/

theorem guides_of_erase (hl : l ≠ []) : Guides (t.erase l) t :=
  ⟨fun he => (entry?_of_erase hl he).2, fun he => (entry?_of_erase hl he).2⟩

/-- Nothing that turns a way is below what does not. -/
theorem Turns.not_suffix {other : Location} (hother : t.Turns other) (hl : ¬ t.Turns l) :
    ¬ l <:+ other := by
  intro hsuffix
  have hne : other ≠ l := fun heq => hl (heq ▸ hother)
  have hnone := entry?_of_suffix (fun he => hl (.inl he)) hsuffix hne
  simp [Turns, hnone] at hother

theorem guides_erase (h : ¬ t.Turns l) : Guides t (t.erase l) where
  directory he := (entry?_erase_of_not_suffix (Turns.not_suffix (.inl he) h)).trans he
  link he := (entry?_erase_of_not_suffix (Turns.not_suffix (.inr ⟨_, he⟩) h)).trans he

theorem Guides.erase (h : Guides t t') (hl : l ≠ []) : Guides (t.erase l) (t'.erase l) where
  directory he :=
    let ⟨hout, he⟩ := entry?_of_erase hl he
    (entry?_erase_of_not_suffix hout).trans (h.directory he)
  link he :=
    let ⟨hout, he⟩ := entry?_of_erase hl he
    (entry?_erase_of_not_suffix hout).trans (h.link he)

theorem Alike.erase (h : Alike t t') (hl : l ≠ []) : Alike (t.erase l) (t'.erase l) :=
  ⟨h.forth.erase hl, h.back.erase hl⟩

theorem Guides.move (h : Guides t t') {source target : Location} (hsource : ¬ t.Turns source)
    (htarget : ¬ t.Turns target) (e : Entry) :
    Guides t ((t'.erase source).insert target e) := by
  have hkept {other : Location} (hturns : t.Turns other) :
      entry? ((t'.erase source).insert target e) other = t'.entry? other := by
    rw [entry?_insert_of_not_suffix (hturns.not_suffix htarget),
      entry?_erase_of_not_suffix (hturns.not_suffix hsource)]
  exact ⟨fun he => (hkept (.inl he)).trans (h.directory he),
    fun he => (hkept (.inr ⟨_, he⟩)).trans (h.link he)⟩

theorem Linkless.erase (h : t.Linkless) {l : Location} (hroot : l ≠ []) : Linkless (t.erase l) :=
  h.of_source id (fun he _ => (entry?_of_erase hroot he).2) fun _ _ heq => heq

theorem Linkless.move (h : t.Linkless) {source target : Location} {e : Entry}
    (hsource : t.entry? source = some e) (hroot : source ≠ []) (hroot' : target ≠ [])
    (hne : source ≠ target) : Linkless ((t.erase source).insert target e) := by
  have hold {l : Location} {e' : Entry}
      (he : entry? ((t.erase source).insert target e) l = some e') :
      l ≠ source ∧ t.entry? (if l = target then source else l) = some e' := by
    rcases entry?_of_insert hroot' he with ⟨rfl, rfl⟩ | ⟨hout, he⟩
    · exact ⟨hne.symm, by rw [if_pos rfl, hsource]⟩
    · obtain ⟨hout', he⟩ := entry?_of_erase hroot he
      have hne' : l ≠ target := fun heq => hout (heq ▸ List.suffix_refl _)
      exact ⟨fun heq => hout' (heq ▸ List.suffix_refl _), by rwa [if_neg hne']⟩
  refine h.of_source (fun l => if l = target then source else l) (fun he _ => (hold he).2) ?_
  intro l l' e₁ e₂ he₁ he₂ heq
  split_ifs at heq with htarget htarget' htarget'
  · rw [htarget, htarget']
  · exact absurd heq.symm (hold he₂).1
  · exact absurd heq (hold he₁).1
  · exact heq

end

/-! ## Links that are met once -/

section

variable {t : FileTree} {purpose : Purpose} {links : Nat} {closed : Bool} {here l at' : Location}
  {names : List Name} {target : Path}

/-- Names lead to the same location without a link, or the link is met on their way: then its
target leads there over fewer links, with what was left of the names behind it. -/
theorem Leads.erase_or (hlink : t.entry? at' = some (.link target))
    (h : Leads t purpose links closed here names l) :
    Leads (t.erase at') purpose links closed here names l ∨
      ∃ fewer < links, ∃ closed rest,
        Leads t purpose fewer closed (start at'.tail target) (FileTree.names target ++ rest) l := by
  have hentry {other : Location} (hne : t.entry? other ≠ some (.link target)) :
      entry? (t.erase at') other = t.entry? other :=
    entry?_erase_of_ne (by simp [hlink]) fun heq => hne (heq ▸ hlink)
  induction h with
  | nil => exact .inl .nil
  | dot _ ih => exact ih.imp_left .dot
  | back _ ih => exact ih.imp_left .back
  | directory hname hadmits he _ ih =>
      exact ih.imp_left (.directory hname hadmits ((hentry (by simp [he])).trans he))
  | @link links closed here name rest target' l hname hadmits he h ih =>
      by_cases heq : name :: here = at'
      · subst heq
        obtain rfl := Entry.link.inj (Option.some.inj (hlink.symm.trans he))
        exact .inr ⟨links, Nat.lt_succ_self links, _, rest, h⟩
      · refine ih.imp (.link hname hadmits ((entry?_erase_of_ne (by simp [hlink]) heq).trans he)) ?_
        rintro ⟨fewer, hfewer, hmet⟩
        exact ⟨fewer, Nat.lt_succ_of_lt hfewer, hmet⟩
  | @last links closed here name hname hadmits hends hclosed =>
      have hsame : entry? (t.erase at') (name :: here) = t.entry? (name :: here) :=
        hentry fun he => hends (.inr ⟨target, he⟩)
      refine .inl (.last hname hadmits ?_ fun hc => hsame.trans (hclosed hc))
      rwa [Turns, hsame]

/-- Names that reach a directory, over any number of links, lead to nothing but a directory. -/
theorem Leads.isDirectory_of_reaches (h : Leads t purpose links closed here names l)
    (hhere : t.entry? here = some .directory) {links' left : Nat} {mid : Location}
    (hreaches : Reaches t links' here (moves names) left mid) :
    t.entry? l = some .directory := by
  have hmid := hreaches.isDirectory hhere
  have hmore : Leads t purpose (links' + links) closed here names l :=
    h.mono (Guides.refl t) (Nat.le_add_left _ _) id id fun hnone _ => hnone
  rwa [hmore.eq_of_reaches (hreaches.add links)]

/-- What is to be created has no slash behind it. -/
theorem Leads.closed_eq_false (h : Leads t .create links closed here names l)
    (hhere : t.entry? here = some .directory) (hl : t.entry? l ≠ some .directory) :
    closed = false := by
  by_contra hclosed
  obtain ⟨left, hreaches⟩ := h.reaches (.inr ⟨Bool.eq_true_of_not_eq_false hclosed, rfl⟩)
  exact hl (h.isDirectory_of_reaches hhere hreaches)

/-- What is behind a link that leads to no directory is found without meeting the link again. Over
fewer and fewer links one would come to a way that does not meet it: names that lead elsewhere than
to a directory have no others behind them. -/
theorem Leads.erase_link (hlink : t.entry? at' = some (.link target))
    (hl : t.entry? l ≠ some .directory)
    (h : Leads t .create links false (start at'.tail target) (FileTree.names target) l) :
    ∃ fewer ≤ links, Leads (t.erase at') .create fewer false (start at'.tail target)
      (FileTree.names target) l := by
  have hstart := entry?_start_target hlink
  induction links using Nat.strong_induction_on with
  | _ links ih =>
      rcases h.erase_or hlink with hfree | ⟨fewer, hfewer, closed, rest, hmet⟩
      · exact ⟨links, le_rfl, hfree⟩
      · cases rest with
        | nil =>
            rw [List.append_nil] at hmet
            rw [hmet.closed_eq_false hstart hl] at hmet
            obtain ⟨least, hleast, hfree⟩ := ih fewer hfewer hmet
            exact ⟨least, hleast.trans hfewer.le, hfree⟩
        | cons name rest =>
            obtain ⟨left, mid, hreaches, -⟩ := hmet.of_append (List.cons_ne_nil name rest)
            exact absurd (h.isDirectory_of_reaches hstart hreaches) hl

/-- What is behind a link at a place is behind its target. -/
theorem Leads.behind_link {directory : Location} {name : Name} (hdot : name ≠ Path.dot)
    (hdotDot : name ≠ Path.dotDot) (hlink : t.entry? (name :: directory) = some (.link target))
    (h : Leads t purpose links closed directory [name] l) :
    ∃ fewer, links = fewer + 1 ∧ Leads t purpose fewer (closed || target.endsInSlash)
      (start directory target) (FileTree.names target) l := by
  cases h with
  | dot => exact absurd rfl hdot
  | back => exact absurd rfl hdotDot
  | directory _ _ he => simp [hlink] at he
  | link _ _ he h =>
      obtain rfl := Entry.link.inj (Option.some.inj (hlink.symm.trans he))
      rw [List.append_nil] at h
      exact ⟨_, rfl, h⟩
  | last _ _ hends => exact absurd (.inr ⟨target, hlink⟩) hends

/-- What is not behind a link is at its place. -/
theorem Leads.eq_of_not_link {directory : Location} {name : Name} (hdot : name ≠ Path.dot)
    (hdotDot : name ≠ Path.dotDot)
    (hlink : ∀ target, t.entry? (name :: directory) ≠ some (.link target))
    (h : Leads t purpose links closed directory [name] l) : l = name :: directory := by
  cases h with
  | dot => exact absurd rfl hdot
  | back => exact absurd rfl hdotDot
  | directory _ _ _ h =>
      cases h with
      | nil => rfl
  | link _ _ he => exact absurd he (hlink _)
  | last => rfl

/-- A path that leads to no directory over the link at its place reaches that place without the
link. -/
theorem Stands.erase_link {p : Path} {left : Nat} {directory : Location}
    {name : Name} (h : t.Stands here p left directory name)
    (hlink : t.entry? (name :: directory) = some (.link target))
    (hl : t.entry? l ≠ some .directory) (hlocate : t.locate purpose here p = .ok l) :
    (t.erase (name :: directory)).Stands here p left directory name := by
  obtain ⟨links, rfl, hbehind⟩ := Leads.behind_link h.ne_dot h.ne_dotDot hlink
    (h.locate_eq_ok_iff.mp hlocate)
  have hkept {other : Location} (hother : t.entry? other = some .directory) :
      entry? (t.erase (name :: directory)) other = some .directory := by
    rwa [entry?_erase_of_ne (by simp [hlink])]
    rintro rfl
    simp [hlink] at hother
  have hdirectory := hkept h.isDirectory
  have haround : Leads t .find maxLinkCount true (FileTree.start here p) (FileTree.names p).dropLast
      directory := h.reaches.leads_find
  rcases haround.erase_or hlink with hfree | ⟨fewer, -, closed', rest, hmet⟩
  · obtain ⟨left, hreaches⟩ := hfree.reaches (.inl hdirectory)
    obtain ⟨rfl, -⟩ := (hreaches.mono (guides_of_erase (List.cons_ne_nil _ _))).unique h.reaches
    exact ⟨h.fault, hkept h.begins, h.last, h.ne_dot, h.ne_dotDot, hdirectory, hreaches⟩
  · obtain ⟨left, mid, hreaches⟩ : ∃ left mid, Reaches t fewer (FileTree.start directory target)
        (moves (FileTree.names target)) left mid := by
      by_cases hrest : rest = []
      · rw [hrest, List.append_nil] at hmet
        obtain ⟨left, hreaches⟩ := hmet.reaches (.inl h.isDirectory)
        exact ⟨left, directory, hreaches⟩
      · obtain ⟨left, mid, hreaches, -⟩ := hmet.of_append hrest
        exact ⟨left, mid, hreaches⟩
    exact absurd (hbehind.isDirectory_of_reaches (entry?_start_target hlink) hreaches) hl

/-- A path that is created over the link at its place is created by the target of the link, which
does not lead over that place again. -/
theorem Stands.behind_link {p : Path} {left : Nat} {directory : Location}
    {name : Name} (h : t.Stands here p left directory name)
    (hlink : t.entry? (name :: directory) = some (.link target))
    (hl : t.entry? l ≠ some .directory) (hlocate : t.locate .create here p = .ok l) :
    target.endsInSlash = false ∧ ∃ links, left = links + 1 ∧
      Leads (t.erase (name :: directory)) .create links false (start directory target)
        (FileTree.names target) l := by
  obtain ⟨links, rfl, hbehind⟩ := Leads.behind_link h.ne_dot h.ne_dotDot hlink
    (h.locate_eq_ok_iff.mp hlocate)
  have hclosed := hbehind.closed_eq_false (entry?_start_target hlink) hl
  rw [hclosed] at hbehind
  obtain ⟨fewer, hfewer, hfree⟩ := hbehind.erase_link hlink hl
  have htarget : target.endsInSlash = false := (Bool.or_eq_false_iff.mp hclosed).2
  exact ⟨htarget, links, rfl, hfree.mono (.refl _) hfewer id id fun hnone _ => hnone⟩

end

end BankTrace.FileTree
