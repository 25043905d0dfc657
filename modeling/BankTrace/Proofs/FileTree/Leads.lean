import BankTrace.Proofs.FileTree.Entries

/-!
# Where names lead

Following names is a derivation: each rule takes one name, and only a directory or a link at that
name takes the way on. What has the directories and links of a tree therefore leads its ways to the
same ends.
-/

namespace BankTrace.FileTree

/-! ## One name -/

structure IsEntryName (name : Name) : Prop where
  ne_dot : name ≠ Path.dot
  ne_dotDot : name ≠ Path.dotDot
  short : name.length ≤ maxNameLength

/-- Whether a way goes on behind a location. -/
def Turns (t : FileTree) (l : Location) : Prop :=
  t.entry? l = some .directory ∨ ∃ target, t.entry? l = some (.link target)

/-- Whether a name may be followed: the last one is not, behind which a slash stands, when it is to
be created. -/
def Admits (purpose : Purpose) (closed : Bool) (rest : List Name) : Prop :=
  ¬ (rest = [] ∧ closed = true ∧ purpose = .create)

theorem follow_nil (t : FileTree) (purpose : Purpose) (links : Nat) (closed : Bool)
    (here : Location) : t.follow purpose links closed here [] = .ok here := by
  cases links <;> rfl

theorem follow_cons (t : FileTree) (purpose : Purpose) (links : Nat) (closed : Bool)
    (here : Location) (name : Name) (rest : List Name) :
    t.follow purpose links closed here (name :: rest) =
      if name = Path.dot then t.follow purpose links closed here rest
      else if name = Path.dotDot then t.follow purpose links closed here.tail rest
      else if rest = [] ∧ closed ∧ purpose = .create then .error .isDirectory
      else if maxNameLength < name.length then .error .nameTooLong
      else
        match t.entry? (name :: here) with
        | some .directory => t.follow purpose links closed (name :: here) rest
        | some (.link target) =>
            match links with
            | 0 => .error .tooManyLinks
            | links + 1 => t.follow purpose links (closed || (rest.isEmpty && target.endsInSlash))
                (start here target) (names target ++ rest)
        | some _ => if rest = [] ∧ !closed then .ok (name :: here) else .error .notDirectory
        | none => if rest = [] then .ok (name :: here) else .error .notFound := by
  cases links <;> rfl

/-! ## The derivation -/

/-- Names lead from a directory to a location over at most `links` links. -/
inductive Leads (t : FileTree) (purpose : Purpose) :
    Nat → Bool → Location → List Name → Location → Prop where
  | nil {links closed here} : Leads t purpose links closed here [] here
  | dot {links closed here rest l} (h : Leads t purpose links closed here rest l) :
      Leads t purpose links closed here (Path.dot :: rest) l
  | back {links closed here rest l} (h : Leads t purpose links closed here.tail rest l) :
      Leads t purpose links closed here (Path.dotDot :: rest) l
  | directory {links closed here name rest l} (hname : IsEntryName name)
      (hadmits : Admits purpose closed rest) (he : t.entry? (name :: here) = some .directory)
      (h : Leads t purpose links closed (name :: here) rest l) :
      Leads t purpose links closed here (name :: rest) l
  | link {links closed here name rest target l} (hname : IsEntryName name)
      (hadmits : Admits purpose closed rest) (he : t.entry? (name :: here) = some (.link target))
      (h : Leads t purpose links (closed || (rest.isEmpty && target.endsInSlash))
        (start here target) (names target ++ rest) l) :
      Leads t purpose (links + 1) closed here (name :: rest) l
  | last {links closed here name} (hname : IsEntryName name) (hadmits : Admits purpose closed [])
      (hends : ¬ t.Turns (name :: here))
      (hclosed : closed = true → t.entry? (name :: here) = none) :
      Leads t purpose links closed here [name] (name :: here)

theorem Leads.follow {t : FileTree} {purpose : Purpose} {links : Nat} {closed : Bool}
    {here l : Location} {names : List Name} (h : Leads t purpose links closed here names l) :
    t.follow purpose links closed here names = .ok l := by
  induction h with
  | nil => exact follow_nil _ _ _ _ _
  | dot _ ih => rw [follow_cons, if_pos rfl, ih]
  | back _ ih => rw [follow_cons, if_neg (by decide), if_pos rfl, ih]
  | directory hname hadmits he _ ih =>
      rw [follow_cons, if_neg hname.ne_dot, if_neg hname.ne_dotDot, if_neg hadmits,
        if_neg (Nat.not_lt_of_le hname.short), he]
      exact ih
  | link hname hadmits he _ ih =>
      rw [follow_cons, if_neg hname.ne_dot, if_neg hname.ne_dotDot, if_neg hadmits,
        if_neg (Nat.not_lt_of_le hname.short), he]
      exact ih
  | @last links closed here name hname hadmits hends hclosed =>
      rw [follow_cons, if_neg hname.ne_dot, if_neg hname.ne_dotDot, if_neg hadmits,
        if_neg (Nat.not_lt_of_le hname.short)]
      cases he : t.entry? (name :: here) with
      | none => exact if_pos rfl
      | some e =>
          cases e with
          | directory => exact absurd (.inl he) hends
          | link target => exact absurd (.inr ⟨target, he⟩) hends
          | file number content | full =>
              have hopen : closed = false := by
                by_contra h
                simp [hclosed (Bool.eq_true_of_not_eq_false h)] at he
              simp [hopen]

/-- The induction is on the links that may be followed, and for each number of them on the names. -/
theorem leads_of_follow {t : FileTree} {purpose : Purpose} {links : Nat} {closed : Bool}
    {here l : Location} {names : List Name}
    (h : t.follow purpose links closed here names = .ok l) :
    Leads t purpose links closed here names l := by
  induction links using Nat.strong_induction_on generalizing closed here names with
  | _ links ihlinks =>
      induction names generalizing here with
      | nil =>
          rw [follow_nil] at h
          obtain rfl := Except.ok.inj h
          exact .nil
      | cons name rest ih =>
          rw [follow_cons] at h
          by_cases hdot : name = Path.dot
          · rw [if_pos hdot] at h
            exact hdot ▸ .dot (ih h)
          by_cases hback : name = Path.dotDot
          · rw [if_neg hdot, if_pos hback] at h
            exact hback ▸ .back (ih h)
          by_cases hadmits : Admits purpose closed rest
          swap
          · simp [hdot, hback, not_not.mp hadmits] at h
          by_cases hlong : maxNameLength < name.length
          · rw [if_neg hdot, if_neg hback, if_neg hadmits, if_pos hlong] at h
            exact nomatch h
          have hname : IsEntryName name := ⟨hdot, hback, Nat.le_of_not_lt hlong⟩
          rw [if_neg hdot, if_neg hback, if_neg hadmits, if_neg hlong] at h
          cases he : t.entry? (name :: here) with
          | none =>
              obtain ⟨rfl, rfl⟩ : rest = [] ∧ name :: here = l := by
                simpa [he, ite_eq_iff] using h
              exact .last hname hadmits (by simp [Turns, he]) fun _ => he
          | some e =>
              rw [he] at h
              cases e with
              | directory => exact .directory hname hadmits he (ih h)
              | link target =>
                  cases links with
                  | zero => exact nomatch h
                  | succ links =>
                      exact .link hname hadmits he (ihlinks links (Nat.lt_succ_self links) h)
              | file number content | full =>
                  obtain ⟨⟨rfl, hopen⟩, rfl⟩ : (rest = [] ∧ closed = false) ∧ name :: here = l := by
                    simpa [ite_eq_iff] using h
                  exact .last hname hadmits (by simp [Turns, he]) (by simp [hopen])

theorem leads_iff {t : FileTree} {purpose : Purpose} {links : Nat} {closed : Bool}
    {here l : Location} {names : List Name} :
    Leads t purpose links closed here names l ↔
      t.follow purpose links closed here names = .ok l :=
  ⟨Leads.follow, leads_of_follow⟩

theorem locate_eq_ok_iff_leads {t : FileTree} {purpose : Purpose} {here l : Location} {p : Path} :
    t.locate purpose here p = .ok l ↔
      pathFault? p = none ∧ t.entry? (start here p) = some .directory ∧
        Leads t purpose maxLinkCount p.endsInSlash (start here p) (names p) l := by
  rw [leads_iff, locate, walk_eq_ok_iff]

theorem entry?_start_target {t : FileTree} {at' : Location} {target : Path}
    (hlink : t.entry? at' = some (.link target)) :
    t.entry? (start at'.tail target) = some .directory := by
  unfold start
  split_ifs
  · exact entry?_root t
  · exact entry?_tail (by simp [hlink])

/-- What names lead to is in a directory, also if it is missing. -/
theorem Leads.tail {t : FileTree} {purpose : Purpose} {links : Nat} {closed : Bool}
    {here l : Location} {names : List Name} (h : Leads t purpose links closed here names l)
    (hhere : t.entry? here = some .directory) : t.entry? l.tail = some .directory := by
  induction h with
  | nil => exact entry?_tail (by simp [hhere])
  | dot _ ih => exact ih hhere
  | back _ ih => exact ih (entry?_tail (by simp [hhere]))
  | directory _ _ he _ ih => exact ih he
  | link _ _ he _ ih => exact ih (entry?_start_target he)
  | last => exact hhere

theorem tail_of_locate {t : FileTree} {purpose : Purpose} {here l : Location} {p : Path}
    (h : t.locate purpose here p = .ok l) : t.entry? l.tail = some .directory :=
  let ⟨_, hbegins, hleads⟩ := locate_eq_ok_iff_leads.mp h
  hleads.tail hbegins

/-! ## Trees that lead alike -/

/-- Whether a tree has the directories and links of another. -/
structure Guides (t t' : FileTree) : Prop where
  directory {l : Location} : t.entry? l = some .directory → t'.entry? l = some .directory
  link {l : Location} {target : Path} :
    t.entry? l = some (.link target) → t'.entry? l = some (.link target)

theorem Guides.refl (t : FileTree) : Guides t t := ⟨id, id⟩

theorem Guides.trans {t t' t'' : FileTree} (h : Guides t t') (h' : Guides t' t'') :
    Guides t t'' := ⟨h'.directory ∘ h.directory, h'.link ∘ h.link⟩

/-- Two trees with the same directories and links. -/
structure Alike (t t' : FileTree) : Prop where
  forth : Guides t t'
  back : Guides t' t

theorem Alike.refl (t : FileTree) : Alike t t := ⟨.refl t, .refl t⟩

theorem Alike.trans {t t' t'' : FileTree} (h : Alike t t') (h' : Alike t' t'') : Alike t t'' :=
  ⟨h.forth.trans h'.forth, h'.back.trans h.back⟩

theorem Guides.turns {t t' : FileTree} (h : Guides t t') {l : Location} (hl : t.Turns l) :
    t'.Turns l := by
  rcases hl with hdirectory | ⟨target, hlink⟩
  · exact .inl (h.directory hdirectory)
  · exact .inr ⟨target, h.link hlink⟩

theorem alike_changeFile (t : FileTree) (number : Nat) (change : ByteArray → ByteArray) :
    Alike t (t.changeFile number change) := by
  have hdirectory {l : Location} : entry? (t.changeFile number change) l = some .directory ↔
      t.entry? l = some .directory := by
    rw [entry?_changeFile]
    cases t.entry? l with
    | none => simp
    | some e => simp [changeFile_eq_directory_iff]
  have hlink {l : Location} {target : Path} :
      entry? (t.changeFile number change) l = some (.link target) ↔
        t.entry? l = some (.link target) := by
    rw [entry?_changeFile]
    cases t.entry? l with
    | none => simp
    | some e => simp [changeFile_eq_link_iff]
  exact ⟨⟨hdirectory.mpr, hlink.mpr⟩, ⟨hdirectory.mp, hlink.mp⟩⟩

theorem guides_insert {t : FileTree} {l : Location} (h : t.entry? l = none) (e : Entry) :
    Guides t (t.insert l e) := by
  have hkept {other : Location} {e' : Entry} (he : t.entry? other = some e') :
      entry? (t.insert l e) other = some e' := by
    rwa [entry?_insert_of_ne (by simp [h])]
    rintro rfl
    simp [h] at he
  exact ⟨hkept, hkept⟩

/-- Names lead to the same location in a tree that has the directories and links, unless they lead
nowhere there for what has come to their end. The induction is on the derivation. -/
theorem Leads.mono {t t' : FileTree} (hguides : Guides t t') {purpose purpose' : Purpose}
    {links links' : Nat} {closed : Bool} {here l : Location} {names : List Name}
    (h : Leads t purpose links closed here names l) (hlinks : links ≤ links')
    (hpurpose : purpose' = .create → purpose = .create) (hends : ¬ t.Turns l → ¬ t'.Turns l)
    (hmissing : t.entry? l = none → purpose = .find → t'.entry? l = none) :
    Leads t' purpose' links' closed here names l := by
  have hstill {closed : Bool} {rest : List Name} (hadmits : Admits purpose closed rest) :
      Admits purpose' closed rest := fun ⟨hrest, hclosed, hcreate⟩ =>
    hadmits ⟨hrest, hclosed, hpurpose hcreate⟩
  induction h generalizing links' with
  | nil => exact .nil
  | dot _ ih => exact .dot (ih hlinks hends hmissing)
  | back _ ih => exact .back (ih hlinks hends hmissing)
  | directory hname hadmits he _ ih =>
      exact .directory hname (hstill hadmits) (hguides.directory he) (ih hlinks hends hmissing)
  | link hname hadmits he _ ih =>
      obtain ⟨links', rfl⟩ : ∃ n, links' = n + 1 := ⟨links' - 1, by omega⟩
      exact .link hname (hstill hadmits) (hguides.link he) (ih (by omega) hends hmissing)
  | last hname hadmits hturns hclosed =>
      refine .last hname (hstill hadmits) (hends hturns) fun hc => hmissing (hclosed hc) ?_
      cases purpose with
      | find => rfl
      | create => exact absurd ⟨rfl, hc, rfl⟩ hadmits

theorem locate_of_guides {t t' : FileTree} (hguides : Guides t t') {purpose purpose' : Purpose}
    (hpurpose : purpose' = .create → purpose = .create) {here l : Location} {p : Path}
    (hends : ¬ t.Turns l → ¬ t'.Turns l)
    (hmissing : t.entry? l = none → purpose = .find → t'.entry? l = none)
    (h : t.locate purpose here p = .ok l) : t'.locate purpose' here p = .ok l := by
  obtain ⟨hfault, hbegins, hleads⟩ := locate_eq_ok_iff_leads.mp h
  exact locate_eq_ok_iff_leads.mpr
    ⟨hfault, hguides.directory hbegins, hleads.mono hguides le_rfl hpurpose hends hmissing⟩

end BankTrace.FileTree
