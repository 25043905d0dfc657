import BankTrace.Proofs.FileTree.Descent
import BankTrace.Proofs.FileTree.Leads

/-!
# Which directories names reach

All names of a way but the last reach a directory, from which the last one is followed with the
links that are left. That part of a way does not depend on what the way is followed for.
-/

namespace BankTrace.FileTree

/-- Steps lead from a directory through directories and links to a directory, and `left` of the
links that may be followed are left there. -/
inductive Reaches (t : FileTree) : Nat → Location → List Name → Nat → Location → Prop where
  | nil {links here} : Reaches t links here [] links here
  | back {links here rest left l} (h : Reaches t links here.tail rest left l) :
      Reaches t links here (Path.dotDot :: rest) left l
  | directory {links here name rest left l} (hname : IsEntryName name)
      (he : t.entry? (name :: here) = some .directory)
      (h : Reaches t links (name :: here) rest left l) : Reaches t links here (name :: rest) left l
  | link {links here name rest target left l} (hname : IsEntryName name)
      (he : t.entry? (name :: here) = some (.link target))
      (h : Reaches t links (start here target) (target.steps ++ rest) left l) :
      Reaches t (links + 1) here (name :: rest) left l

variable {t t' : FileTree} {links left : Nat} {here l : Location} {steps : List Name}

theorem Reaches.mono (hguides : Guides t t') (h : Reaches t links here steps left l) :
    Reaches t' links here steps left l := by
  induction h with
  | nil => exact .nil
  | back _ ih => exact .back ih
  | directory hname he _ ih => exact .directory hname (hguides.directory he) ih
  | link hname he _ ih => exact .link hname (hguides.link he) ih

/-- More links than are needed are left at the end. -/
theorem Reaches.add (h : Reaches t links here steps left l) (more : Nat) :
    Reaches t (links + more) here steps (left + more) l := by
  induction h with
  | nil => exact .nil
  | back _ ih => exact .back ih
  | directory hname he _ ih => exact .directory hname he ih
  | link hname he _ ih =>
      rw [Nat.add_right_comm]
      exact .link hname he ih

theorem Reaches.unique (h : Reaches t links here steps left l) {left' : Nat} {l' : Location}
    (h' : Reaches t links here steps left' l') : left = left' ∧ l = l' := by
  induction h with
  | nil =>
      cases h' with
      | nil => exact ⟨rfl, rfl⟩
  | back _ ih =>
      cases h' with
      | back h' => exact ih h'
      | directory hname => exact absurd rfl hname.ne_dotDot
      | link hname => exact absurd rfl hname.ne_dotDot
  | directory hname he _ ih =>
      cases h' with
      | back => exact absurd rfl hname.ne_dotDot
      | directory _ _ h' => exact ih h'
      | link _ he' => simp [he] at he'
  | link hname he _ ih =>
      cases h' with
      | back => exact absurd rfl hname.ne_dotDot
      | directory _ he' => simp [he] at he'
      | link _ he' h' =>
          obtain rfl : _ = _ := Entry.link.inj (Option.some.inj (he.symm.trans he'))
          exact ih h'

theorem Reaches.append (h : Reaches t links here steps left l) {more : List Name} {left' : Nat}
    {l' : Location} (h' : Reaches t left l more left' l') :
    Reaches t links here (steps ++ more) left' l' := by
  induction h with
  | nil => exact h'
  | back _ ih => exact .back (ih h')
  | directory hname he _ ih => exact .directory hname he (ih h')
  | link hname he _ ih =>
      refine .link hname he ?_
      have hrest := ih h'
      rwa [List.append_assoc] at hrest

theorem Reaches.of_append {more : List Name} (h : Reaches t links here (steps ++ more) left l) :
    ∃ between mid, Reaches t links here steps between mid ∧ Reaches t between mid more left l := by
  generalize hall : steps ++ more = all at h
  induction h generalizing steps with
  | nil =>
      obtain ⟨rfl, rfl⟩ := List.append_eq_nil_iff.mp hall
      exact ⟨_, _, .nil, .nil⟩
  | @back links here rest left l h ih =>
      cases steps with
      | nil =>
          obtain rfl : more = _ := hall
          exact ⟨_, _, .nil, .back h⟩
      | cons step steps =>
          obtain ⟨rfl, rfl⟩ := List.cons.inj hall
          obtain ⟨between, mid, hfirst, hrest⟩ := ih rfl
          exact ⟨between, mid, .back hfirst, hrest⟩
  | @directory links here name rest left l hname he h ih =>
      cases steps with
      | nil =>
          obtain rfl : more = _ := hall
          exact ⟨_, _, .nil, .directory hname he h⟩
      | cons step steps =>
          obtain ⟨rfl, rfl⟩ := List.cons.inj hall
          obtain ⟨between, mid, hfirst, hrest⟩ := ih rfl
          exact ⟨between, mid, .directory hname he hfirst, hrest⟩
  | @link links here name rest target left l hname he h ih =>
      cases steps with
      | nil =>
          obtain rfl : more = _ := hall
          exact ⟨_, _, .nil, .link hname he h⟩
      | cons step steps =>
          obtain ⟨rfl, rfl⟩ := List.cons.inj hall
          obtain ⟨between, mid, hfirst, hrest⟩ := ih (List.append_assoc _ _ _)
          exact ⟨between, mid, .link hname he hfirst, hrest⟩

theorem Reaches.isDirectory (h : Reaches t links here steps left l)
    (hhere : t.entry? here = some .directory) : t.entry? l = some .directory := by
  have hstart {here : Location} (hhere : t.entry? here = some .directory) (target : Path) :
      t.entry? (start here target) = some .directory := by
    unfold start
    split_ifs
    · exact entry?_root t
    · exact hhere
  induction h with
  | nil => exact hhere
  | back _ ih => exact ih (entry?_tail (by simp [hhere]))
  | directory _ he _ ih => exact ih he
  | link _ _ _ ih => exact ih (hstart hhere _)

/-! ## All names but the last -/

section

variable {purpose : Purpose} {closed : Bool} {xs ys : List Name}

theorem moves_append (xs ys : List Name) : moves (xs ++ ys) = moves xs ++ moves ys :=
  List.filter_append _ _

/-- The names in front of others reach a directory from which the others lead on. -/
theorem Leads.of_append (h : Leads t purpose links closed here (xs ++ ys) l) (hys : ys ≠ []) :
    ∃ left mid, Reaches t links here (moves xs) left mid ∧
      Leads t purpose left closed mid ys l := by
  generalize hall : xs ++ ys = all at h
  induction h generalizing xs with
  | nil => exact absurd (List.append_eq_nil_iff.mp hall).2 hys
  | @dot links closed here rest l h ih =>
      cases xs with
      | nil =>
          obtain rfl : ys = _ := hall
          exact ⟨_, _, .nil, .dot h⟩
      | cons x xs =>
          obtain ⟨rfl, rfl⟩ := List.cons.inj hall
          exact @ih xs rfl
  | @back links closed here rest l h ih =>
      cases xs with
      | nil =>
          obtain rfl : ys = _ := hall
          exact ⟨_, _, .nil, .back h⟩
      | cons x xs =>
          obtain ⟨rfl, rfl⟩ := List.cons.inj hall
          obtain ⟨left, mid, hfirst, hrest⟩ := @ih xs rfl
          exact ⟨left, mid, .back hfirst, hrest⟩
  | @directory links closed here name rest l hname hadmits he h ih =>
      cases xs with
      | nil =>
          obtain rfl : ys = _ := hall
          exact ⟨_, _, .nil, .directory hname hadmits he h⟩
      | cons x xs =>
          obtain ⟨rfl, rfl⟩ := List.cons.inj hall
          obtain ⟨left, mid, hfirst, hrest⟩ := @ih xs rfl
          rw [moves_cons hname.ne_dot]
          exact ⟨left, mid, .directory hname he hfirst, hrest⟩
  | @link links closed here name rest target l hname hadmits he h ih =>
      cases xs with
      | nil =>
          obtain rfl : ys = _ := hall
          exact ⟨_, _, .nil, .link hname hadmits he h⟩
      | cons x xs =>
          obtain ⟨rfl, rfl⟩ := List.cons.inj hall
          obtain ⟨left, mid, hfirst, hrest⟩ := ih (List.append_assoc (names target) xs ys)
          rw [moves_append, moves_names] at hfirst
          rw [moves_cons hname.ne_dot]
          have hclosed : (closed || ((xs.append ys).isEmpty && target.endsInSlash)) = closed := by
            simp [hys]
          exact ⟨left, mid, .link hname he hfirst, hclosed ▸ hrest⟩
  | @last links closed here name hname hadmits hends hclosed =>
      cases xs with
      | nil =>
          obtain rfl : ys = _ := hall
          exact ⟨_, _, .nil, .last hname hadmits hends hclosed⟩
      | cons x xs => simp [hys] at hall

/-- Names that lead to a directory reach it, and so do names that may lead to nothing else. -/
theorem Leads.reaches (h : Leads t purpose links closed here xs l)
    (hend : t.entry? l = some .directory ∨ closed = true ∧ purpose = .create) :
    ∃ left, Reaches t links here (moves xs) left l := by
  induction h with
  | nil => exact ⟨_, .nil⟩
  | dot _ ih => exact ih hend
  | back _ ih =>
      obtain ⟨left, hrest⟩ := ih hend
      exact ⟨left, .back hrest⟩
  | directory hname _ he _ ih =>
      obtain ⟨left, hrest⟩ := ih hend
      rw [moves_cons hname.ne_dot]
      exact ⟨left, .directory hname he hrest⟩
  | link hname _ he _ ih =>
      obtain ⟨left, hrest⟩ := ih (hend.imp_right fun ⟨hclosed, hcreate⟩ =>
        ⟨by simp [hclosed], hcreate⟩)
      rw [moves_append, moves_names] at hrest
      rw [moves_cons hname.ne_dot]
      exact ⟨left, .link hname he hrest⟩
  | last hname hadmits hends _ =>
      rcases hend with he | ⟨hclosed, hcreate⟩
      · exact absurd (.inl he) hends
      · exact absurd ⟨rfl, hclosed, hcreate⟩ hadmits

/-- Names lead to no other location than the directory they reach. -/
theorem Leads.eq_of_reaches (h : Leads t purpose links closed here xs l) {mid : Location}
    (hreaches : Reaches t links here (moves xs) left mid) : l = mid := by
  induction h with
  | nil =>
      cases hreaches with
      | nil => rfl
  | dot _ ih => exact ih hreaches
  | back _ ih =>
      cases hreaches with
      | back hreaches => exact ih hreaches
      | directory hname => exact absurd rfl hname.ne_dotDot
      | link hname => exact absurd rfl hname.ne_dotDot
  | directory hname _ he _ ih =>
      rw [moves_cons hname.ne_dot] at hreaches
      cases hreaches with
      | back => exact absurd rfl hname.ne_dotDot
      | directory _ _ hreaches => exact ih hreaches
      | link _ he' => simp [he] at he'
  | link hname _ he _ ih =>
      rw [moves_cons hname.ne_dot] at hreaches
      cases hreaches with
      | back => exact absurd rfl hname.ne_dotDot
      | directory _ he' => simp [he] at he'
      | link _ he' hreaches =>
          obtain rfl : _ = _ := Entry.link.inj (Option.some.inj (he.symm.trans he'))
          refine ih ?_
          rwa [moves_append, moves_names]
  | last hname _ hends _ =>
      rw [moves_cons hname.ne_dot] at hreaches
      cases hreaches with
      | back => exact absurd rfl hname.ne_dotDot
      | directory _ he => exact absurd (.inl he) hends
      | link _ he => exact absurd (.inr ⟨_, he⟩) hends

theorem Leads.dots {dots : List Name} (hdots : ∀ name ∈ dots, name = Path.dot)
    (h : Leads t purpose links closed here ys l) :
    Leads t purpose links closed here (dots ++ ys) l := by
  induction dots with
  | nil => exact h
  | cons name dots ih =>
      obtain ⟨rfl, hrest⟩ := List.forall_mem_cons.mp hdots
      exact .dot (ih hrest)

/-- Names lead on from the directory they reach. What is asked of the names behind them depends on
whether there are any: only the last name is told of a slash at the end. -/
theorem Reaches.leads_of_moves {mid : Location} (h : Reaches t links here steps left mid)
    (hsteps : moves xs = steps) (hend : ys = [] → purpose = .find)
    (hrest : ∀ closed', (ys ≠ [] → closed' = closed) → Leads t purpose left closed' mid ys l) :
    Leads t purpose links closed here (xs ++ ys) l := by
  have hdots {front : List Name} (hfront : ∀ name ∈ front, ¬ (name != Path.dot) = true) :
      ∀ name ∈ front, name = Path.dot := fun name hname => by simpa using hfront name hname
  induction h generalizing xs closed with
  | nil =>
      have hfront := List.filter_eq_nil_iff.mp hsteps
      exact (hrest closed fun _ => rfl).dots (hdots hfront)
  | back _ ih =>
      obtain ⟨front, xs, rfl, hfront, -, hmoves⟩ := List.filter_eq_cons_iff.mp hsteps
      rw [List.append_assoc]
      exact (Leads.back (ih hmoves hrest)).dots (hdots hfront)
  | directory hname he _ ih =>
      obtain ⟨front, xs, rfl, hfront, -, hmoves⟩ := List.filter_eq_cons_iff.mp hsteps
      rw [List.append_assoc]
      refine Leads.dots (hdots hfront) (.directory hname ?_ he (ih hmoves hrest))
      rintro ⟨hnil, -, hcreate⟩
      simp [hend (List.append_eq_nil_iff.mp hnil).2] at hcreate
  | @link links here name rest target left mid hname he _ ih =>
      obtain ⟨front, xs, rfl, hfront, -, hmoves⟩ := List.filter_eq_cons_iff.mp hsteps
      rw [List.append_assoc]
      refine Leads.dots (hdots hfront) (.link hname ?_ he ?_)
      · rintro ⟨hnil, -, hcreate⟩
        simp [hend (List.append_eq_nil_iff.mp hnil).2] at hcreate
      · have htarget : moves (names target ++ xs) = target.steps ++ rest := by
          rw [moves_append, moves_names]
          exact congrArg (target.steps ++ ·) hmoves
        have hleads : Leads t purpose links (closed || ((xs ++ ys).isEmpty && target.endsInSlash))
            (start here target) (names target ++ xs ++ ys) l := by
          refine ih htarget fun closed' hclosed => hrest closed' fun hys => ?_
          have hne : (xs ++ ys).isEmpty = false := by simp [hys]
          simpa [hne] using hclosed hys
        rwa [List.append_assoc] at hleads

/-- From the directory that names reach, further names lead where they lead behind those. -/
theorem Reaches.leads {mid : Location} (h : Reaches t links here (moves xs) left mid)
    (hrest : Leads t purpose left closed mid ys l) (hys : ys ≠ []) :
    Leads t purpose links closed here (xs ++ ys) l :=
  h.leads_of_moves rfl (fun hnil => absurd hnil hys) fun _ hclosed => hclosed hys ▸ hrest

theorem Reaches.leads_find {mid : Location} (h : Reaches t links here (moves xs) left mid) :
    Leads t .find links closed here xs mid := by
  have hleads : Leads t .find links closed here (xs ++ []) mid :=
    h.leads_of_moves rfl (fun _ => rfl) fun _ _ => .nil
  rwa [List.append_nil] at hleads

end

end BankTrace.FileTree
