import BankTrace.Proofs.Json.Skipping
import BankTrace.Proofs.Json.Spread

/-!
# What readers make of lists and objects

A reader of elements or members that comes to a judgement of each of them comes to one of the whole:
it takes all of them in their order, or fails at the first on which it fails.
-/

namespace BankTrace.Json.Reader

variable {α β : Type} {rest : List Char}

/-! ## Lists -/

theorem takes_hasElement_true {v : List Char} (hv : IsValue v) {spaces : List Char}
    (hspaces : Spaces spaces) (rest : List Char) :
    (hasElement true).Takes (spaces ++ (v ++ rest)) true (v ++ rest) := by
  obtain ⟨c, more, rfl, hspace, hclose, -⟩ := hv.head
  refine (takes_peek hspaces hspace _ _).bind ?_
  split
  next => exact absurd rfl hclose
  · exact Takes.pure _ _

theorem takes_hasElement_false {v : List Char} (hv : IsValue v) {gap spaces : List Char}
    (hgap : Spaces gap) (hspaces : Spaces spaces) (rest : List Char) :
    (hasElement false).Takes (gap ++ ',' :: (spaces ++ (v ++ rest))) true (v ++ rest) := by
  obtain ⟨c, more, rfl, hspace, hclose, -⟩ := hv.head
  refine (takes_peek hgap (by decide) _ _).bind ((takes_advance _ _).bind ?_)
  refine (takes_peek hspaces hspace _ _).bind ?_
  simp only [if_neg hclose]
  exact Takes.pure _ _

theorem takes_hasElement_closing {gap : List Char} (hgap : Spaces gap) (first : Bool)
    (rest : List Char) : (hasElement first).Takes (gap ++ ']' :: rest) false (']' :: rest) :=
  (takes_peek hgap (by decide) _ _).bind (Takes.pure _ _)

theorem delimited_elements (elements : List Spaced) {gap : List Char} (hgap : Spaces gap)
    (rest : List Char) :
    Delimited (gap ++ ((elements.map Spaced.text).flatMap (',' :: ·) ++ ']' :: rest)) :=
  delimited_pieces (elements.map Spaced.text) hgap .list rest

theorem map_mapM_cons (judge : Spaced → Option α) (e : Spaced) (elements : List Spaced)
    (seen : List α) : ((e :: elements).mapM judge).map (seen.reverse ++ ·) =
      (judge e).bind fun a => (elements.mapM judge).map ((a :: seen).reverse ++ ·) := by
  rw [List.mapM_cons]
  cases judge e with
  | none => rfl
  | some a => cases elements.mapM judge <;> simp

/-- An element, once it has been seen, is judged before those behind it. -/
theorem yields_elementsWithin_cons {item : Reader α} {judge : Spaced → Option α} {e : Spaced}
    {elements : List Spaced} (hitem : Judges item e.inner (judge e)) {first : Bool}
    {text rest : List Char} (hseen : (hasElement first).Takes text true
      (e.inner ++ (e.behind.val ++ ((elements.map Spaced.text).flatMap (',' :: ·) ++ ']' :: rest))))
    {fuel : Nat} {seen : List α}
    (hmore : ∀ a, (elementsWithin item fuel false (a :: seen)).Yields
      (e.behind.val ++ ((elements.map Spaced.text).flatMap (',' :: ·) ++ ']' :: rest))
      ((elements.mapM judge).map ((a :: seen).reverse ++ ·)) (']' :: rest)) :
    (elementsWithin item (fuel + 1) first seen).Yields text
      (((e :: elements).mapM judge).map (seen.reverse ++ ·)) (']' :: rest) := by
  rw [map_mapM_cons]
  unfold elementsWithin
  refine hseen.yields_bind ?_
  simp only [↓reduceIte]
  exact (hitem [] spaces_nil _ (delimited_elements elements e.behind.property rest)).bind
    fun a _ => hmore a

/-- Behind an element stand more of them, each behind a comma, and the closing. -/
theorem yields_elementsWithin {item : Reader α} {judge : Spaced → Option α}
    {elements : List Spaced} (hvalues : ∀ e ∈ elements, IsValue e.inner)
    (hitem : ∀ e ∈ elements, Judges item e.inner (judge e)) {gap : List Char} (hgap : Spaces gap)
    {fuel : Nat} (hfuel : elements.length < fuel) (seen : List α) (rest : List Char) :
    (elementsWithin item fuel false seen).Yields
      (gap ++ ((elements.map Spaced.text).flatMap (',' :: ·) ++ ']' :: rest))
      ((elements.mapM judge).map (seen.reverse ++ ·)) (']' :: rest) := by
  induction elements generalizing gap fuel seen with
  | nil =>
      obtain ⟨fuel, rfl⟩ := Nat.exists_eq_succ_of_ne_zero (Nat.ne_of_gt hfuel)
      have hnil : (([] : List Spaced).mapM judge).map (seen.reverse ++ ·) = some seen.reverse := by
        simp
      rw [hnil]
      exact (takes_hasElement_closing hgap false rest).bind (Takes.pure _ _)
  | cons e elements ih =>
      obtain ⟨fuel, rfl⟩ := Nat.exists_eq_succ_of_ne_zero (Nat.ne_zero_of_lt hfuel)
      obtain ⟨hvalue, hvalues⟩ := List.forall_mem_cons.mp hvalues
      obtain ⟨hjudge, hitem⟩ := List.forall_mem_cons.mp hitem
      have hseen := takes_hasElement_false hvalue hgap e.before.property
        (e.behind.val ++ ((elements.map Spaced.text).flatMap (',' :: ·) ++ ']' :: rest))
      have hmore (a : α) := ih hvalues hitem e.behind.property (Nat.lt_of_succ_lt_succ hfuel)
        (a :: seen)
      simpa [Spaced.text] using yields_elementsWithin_cons hjudge hseen hmore

/-- The fuel that readers give themselves is enough for all pieces. -/
theorem length_lt_length_separated (pieces : List (List Char)) (gap : List Char) (closing : Char)
    (rest : List Char) :
    pieces.length < (gap ++ (separated pieces ++ closing :: rest)).length + 1 := by
  have hmore (pieces : List (List Char)) :
      pieces.length ≤ (pieces.flatMap (',' :: ·)).length := by
    induction pieces with
    | nil => simp
    | cons piece pieces ih =>
        simp only [List.flatMap_cons, List.length_append, List.length_cons]
        omega
  cases pieces with
  | nil => simp
  | cons piece pieces =>
      have := hmore pieces
      simp only [separated, List.length_append, List.length_cons]
      omega

theorem yields_elementsWithin_opened {item : Reader α} {judge : Spaced → Option α}
    {elements : List Spaced} (hvalues : ∀ e ∈ elements, IsValue e.inner)
    (hitem : ∀ e ∈ elements, Judges item e.inner (judge e)) (gap : Gap) {fuel : Nat}
    (hfuel : elements.length < fuel) (rest : List Char) :
    (elementsWithin item fuel true []).Yields
      (gap.val ++ (separated (elements.map Spaced.text) ++ ']' :: rest)) (elements.mapM judge)
      (']' :: rest) := by
  obtain ⟨fuel, rfl⟩ := Nat.exists_eq_succ_of_ne_zero (Nat.ne_zero_of_lt hfuel)
  cases elements with
  | nil => exact (takes_hasElement_closing gap.property true rest).bind (Takes.pure _ _)
  | cons e elements =>
      obtain ⟨hvalue, hvalues⟩ := List.forall_mem_cons.mp hvalues
      obtain ⟨hjudge, hitem⟩ := List.forall_mem_cons.mp hitem
      have hseen := takes_hasElement_true hvalue (gap.property.append e.before.property)
        (e.behind.val ++ ((elements.map Spaced.text).flatMap (',' :: ·) ++ ']' :: rest))
      have hmore (a : α) := yields_elementsWithin hvalues hitem e.behind.property
        (Nat.lt_of_succ_lt_succ hfuel) [a] rest
      simpa [Spaced.text, separated] using yields_elementsWithin_cons hjudge hseen hmore

theorem yields_elements {item : Reader α} {judge : Spaced → Option α} {elements : List Spaced}
    (hvalues : ∀ e ∈ elements, IsValue e.inner)
    (hitem : ∀ e ∈ elements, Judges item e.inner (judge e)) (gap : Gap) (rest : List Char) :
    (Reader.elements item).Yields
      (gap.val ++ (separated (elements.map Spaced.text) ++ ']' :: rest)) (elements.mapM judge)
      rest := by
  have hfuel := length_lt_length_separated (elements.map Spaced.text) gap.val ']' rest
  rw [List.length_map] at hfuel
  rw [← Option.bind_fun_some (elements.mapM judge)]
  exact (takes_get _).yields_bind ((yields_elementsWithin_opened hvalues hitem gap hfuel rest).bind
    fun items _ => (takes_endList rest).bind (Takes.pure items rest))

theorem decides_elements {item : Reader α} (hitem : Decides item) (gap : Gap)
    {elements : List Spaced} (hvalues : ∀ e ∈ elements, IsValue e.inner) :
    ∃ outcome, ∀ rest, (Reader.elements item).Yields
      (gap.val ++ (separated (elements.map Spaced.text) ++ ']' :: rest)) outcome rest := by
  obtain ⟨judge, hjudge⟩ := hitem.judgements
  exact ⟨_, yields_elements hvalues (fun e he => hjudge e.inner (hvalues e he)) gap⟩

/-! ## Objects -/

theorem takes_hasMember_true {spaces : List Char} (hspaces : Spaces spaces) (rest : List Char) :
    (hasMember true).Takes (spaces ++ '"' :: rest) true ('"' :: rest) :=
  (takes_peek hspaces (by decide) _ _).bind ((Takes.pure _ _).bind (Takes.pure _ _))

theorem takes_hasMember_false {gap spaces : List Char} (hgap : Spaces gap)
    (hspaces : Spaces spaces) (rest : List Char) :
    (hasMember false).Takes (gap ++ ',' :: (spaces ++ '"' :: rest)) true ('"' :: rest) := by
  refine (takes_peek hgap (by decide) _ _).bind ((takes_advance _ _).bind ?_)
  exact (takes_peek hspaces (by decide) _ _).bind (Takes.pure _ _)

theorem takes_hasMember_closing {gap : List Char} (hgap : Spaces gap) (first : Bool)
    (rest : List Char) : (hasMember first).Takes (gap ++ '}' :: rest) false ('}' :: rest) :=
  (takes_peek hgap (by decide) _ _).bind (Takes.pure _ _)

/-- What a reader makes of a member, the quote that opens its key having been read. -/
def JudgesMember (reader : List Char → Reader β) (m : Member) (outcome : Option β) : Prop :=
  ∀ rest, Delimited rest → (Reader.text >>= reader).Yields
    (m.key.inner ++ '"' :: (m.key.behind.val ++ ':' :: (m.value.before.val ++
      (m.value.inner ++ rest)))) outcome rest

theorem delimited_members (members : List Member) {gap : List Char} (hgap : Spaces gap)
    (rest : List Char) :
    Delimited (gap ++ ((members.map Member.text).flatMap (',' :: ·) ++ '}' :: rest)) :=
  delimited_pieces (members.map Member.text) hgap .object rest

/-- A member, once it has been seen, is judged before those behind it. -/
theorem yields_membersWithin_cons {member : β → List Char → Reader β} {m : Member}
    {members : List Member} {start : β} {now : Option β}
    (hmember : JudgesMember (member start) m now) {first : Bool} {text rest : List Char}
    (hseen : (hasMember first).Takes text true
      ('"' :: (m.key.inner ++ '"' :: (m.key.behind.val ++ ':' :: (m.value.before.val ++
        (m.value.inner ++ (m.value.behind.val ++
          ((members.map Member.text).flatMap (',' :: ·) ++ '}' :: rest))))))))
    {judge : β → Option β} {fuel : Nat}
    (hmore : ∀ next, (membersWithin member fuel false next).Yields
      (m.value.behind.val ++ ((members.map Member.text).flatMap (',' :: ·) ++ '}' :: rest))
      (judge next) ('}' :: rest)) :
    (membersWithin member (fuel + 1) first start).Yields text (now.bind judge) ('}' :: rest) := by
  unfold membersWithin
  refine hseen.yields_bind ((takes_advance _ _).yields_bind ?_)
  rw [← bind_assoc]
  exact (hmember _ (delimited_members members m.value.behind.property rest)).bind
    fun next _ => hmore next

theorem text_member_append (m : Member) (rest : List Char) :
    m.text ++ rest = m.key.before.val ++ '"' :: (m.key.inner ++ '"' :: (m.key.behind.val ++ ':' ::
      (m.value.before.val ++ (m.value.inner ++ (m.value.behind.val ++ rest))))) := by
  simp [Member.text, Member.lead, Spaced.text]

/-- Behind a member stand more of them, each behind a comma, and the closing. -/
theorem yields_membersWithin {member : β → List Char → Reader β} {judge : β → Member → Option β}
    {members : List Member}
    (hmember : ∀ b, ∀ m ∈ members, JudgesMember (member b) m (judge b m)) {gap : List Char}
    (hgap : Spaces gap) {fuel : Nat} (hfuel : members.length < fuel) (start : β)
    (rest : List Char) :
    (membersWithin member fuel false start).Yields
      (gap ++ ((members.map Member.text).flatMap (',' :: ·) ++ '}' :: rest))
      (members.foldlM judge start) ('}' :: rest) := by
  induction members generalizing gap fuel start with
  | nil =>
      obtain ⟨fuel, rfl⟩ := Nat.exists_eq_succ_of_ne_zero (Nat.ne_of_gt hfuel)
      exact (takes_hasMember_closing hgap false rest).bind (Takes.pure _ _)
  | cons m members ih =>
      obtain ⟨fuel, rfl⟩ := Nat.exists_eq_succ_of_ne_zero (Nat.ne_zero_of_lt hfuel)
      have hmore (next : β) := ih (fun b m hm => hmember b m (List.mem_cons_of_mem _ hm))
        m.value.behind.property (Nat.lt_of_succ_lt_succ hfuel) next
      rw [List.map_cons, List.flatMap_cons, List.cons_append, List.cons_append, List.append_assoc,
        text_member_append]
      exact yields_membersWithin_cons (hmember start m List.mem_cons_self)
        (takes_hasMember_false hgap m.key.before.property _) hmore

theorem yields_membersWithin_opened {member : β → List Char → Reader β}
    {judge : β → Member → Option β} {members : List Member}
    (hmember : ∀ b, ∀ m ∈ members, JudgesMember (member b) m (judge b m)) (gap : Gap) {fuel : Nat}
    (hfuel : members.length < fuel) (start : β) (rest : List Char) :
    (membersWithin member fuel true start).Yields
      (gap.val ++ (separated (members.map Member.text) ++ '}' :: rest))
      (members.foldlM judge start) ('}' :: rest) := by
  obtain ⟨fuel, rfl⟩ := Nat.exists_eq_succ_of_ne_zero (Nat.ne_zero_of_lt hfuel)
  cases members with
  | nil => exact (takes_hasMember_closing gap.property true rest).bind (Takes.pure _ _)
  | cons m members =>
      have hmore (next : β) := yields_membersWithin
        (fun b m hm => hmember b m (List.mem_cons_of_mem _ hm)) m.value.behind.property
        (Nat.lt_of_succ_lt_succ hfuel) next rest
      rw [List.map_cons, separated, List.append_assoc, text_member_append, ← List.append_assoc]
      exact yields_membersWithin_cons (hmember start m List.mem_cons_self)
        (takes_hasMember_true (gap.property.append m.key.before.property) _) hmore

theorem yields_members {member : β → List Char → Reader β} {judge : β → Member → Option β}
    {members : List Member}
    (hmember : ∀ b, ∀ m ∈ members, JudgesMember (member b) m (judge b m)) (gap : Gap) (start : β)
    (rest : List Char) :
    (Reader.members start member).Yields
      (gap.val ++ (separated (members.map Member.text) ++ '}' :: rest))
      (members.foldlM judge start) rest := by
  have hfuel := length_lt_length_separated (members.map Member.text) gap.val '}' rest
  rw [List.length_map] at hfuel
  rw [← Option.bind_fun_some (members.foldlM judge start)]
  exact (takes_get _).yields_bind ((yields_membersWithin_opened hmember gap hfuel start rest).bind
    fun last _ => (takes_advance '}' rest).bind (Takes.pure last rest))

/-- A key that spells nothing is refused; for any other it depends on what follows. -/
theorem ReadsAs.judgesMember {reader : List Char → Reader β} {m : Member}
    {name : Option (List Char)} {result : List Char → Option β} (hname : ReadsAs m.key.inner name)
    (hread : ∀ key, name = some key → ∀ rest, Delimited rest → (reader key).Yields
      (m.key.behind.val ++ ':' :: (m.value.before.val ++ (m.value.inner ++ rest))) (result key)
        rest) :
    JudgesMember reader m (name.bind result) := fun rest hrest =>
  (hname.text _).bind fun key hkey => hread key hkey rest hrest

theorem JudgesMember.unique {reader : List Char → Reader β} {m : Member}
    {outcome outcome' : Option β} (h : JudgesMember reader m outcome)
    (h' : JudgesMember reader m outcome') : outcome = outcome' :=
  (h [] delimited_nil).unique (h' [] delimited_nil)

theorem ReadsAs.judgesMember_some {reader : List Char → Reader β} {m : Member} {key : List Char}
    (hkey : ReadsAs m.key.inner (some key)) {outcome : Option β}
    (hread : ∀ rest, Delimited rest → (reader key).Yields
      (m.key.behind.val ++ ':' :: (m.value.before.val ++ (m.value.inner ++ rest))) outcome rest) :
    JudgesMember reader m outcome := fun rest hrest =>
  Takes.yields_bind (hkey.text _) (hread rest hrest)

theorem ReadsAs.judgesMember_none {m : Member} (hkey : ReadsAs m.key.inner none)
    (reader : List Char → Reader β) : JudgesMember reader m none := fun _ _ =>
  Fails.bind (hkey.text _) reader

theorem decides_members {member : β → List Char → Reader β} (start : β) (gap : Gap)
    {members : List Member}
    (hmember : ∀ b, ∀ m ∈ members, ∃ outcome, JudgesMember (member b) m outcome) :
    ∃ outcome, ∀ rest, (Reader.members start member).Yields
      (gap.val ++ (separated (members.map Member.text) ++ '}' :: rest)) outcome rest := by
  choose! judge hjudge using hmember
  exact ⟨_, yields_members hjudge gap start⟩

/-! ## Whole values -/

theorem decides_valueWith {list object : Reader Value}
    (hlist : ∀ gap elements, (∀ e ∈ elements, IsValue e.inner) →
      ∃ outcome, ∀ rest, list.Yields (listText gap elements ++ rest) outcome rest)
    (hobject : ∀ gap members, (∀ m ∈ members, IsLetters m.key.inner) →
      (∀ m ∈ members, IsValue m.value.inner) →
      ∃ outcome, ∀ rest, object.Yields (objectText gap members ++ rest) outcome rest) :
    Decides (valueWith list object) := by
  refine decides_found (fun leaf hnotList hnotObject => ?_) hlist hobject
  cases leaf with
  | null => exact ⟨some .null, Takes.pure _⟩
  | boolean b => exact ⟨some (.boolean b), Takes.pure _⟩
  | number n => exact ⟨some (.number n), Takes.pure _⟩
  | string s => exact ⟨some (.string s.toList), Takes.pure _⟩
  | list => exact absurd rfl hnotList
  | object => exact absurd rfl hnotObject
  | bareName => exact ⟨none, fails_throw _⟩

theorem decides_value (depth : Nat) : Decides (value depth) := by
  induction depth with
  | zero =>
      exact decides_valueWith (fun _ _ _ => ⟨none, fun _ => fails_throw _ _⟩)
        fun _ _ _ _ => ⟨none, fun _ => fails_throw _ _⟩
  | succ depth ih =>
      refine decides_valueWith (fun gap elements hvalues => ?_) fun gap members hkeys hvalues => ?_
      · obtain ⟨outcome, houtcome⟩ := decides_elements ih gap hvalues
        refine ⟨outcome.map Value.list, fun rest => ?_⟩
        rw [listText_append]
        exact (takes_advance _ _).yields_bind ((houtcome rest).map Value.list)
      · obtain ⟨judge, hjudge⟩ := ih.judgements
        have hmember (seen : List (List Char × Value)) : ∀ m ∈ members, ∃ outcome,
            JudgesMember (fun key => do
              colon
              pure ((key, ← value depth) :: seen)) m outcome := by
          intro m hm
          obtain ⟨name, hname⟩ := readsAs_of_isLetters (hkeys m hm)
          refine ⟨name.bind fun key => (judge m.value.inner).map fun v => (key, v) :: seen, ?_⟩
          refine hname.judgesMember fun key _ rest hrest => ?_
          refine (takes_colon_behind m.key.behind.property _).yields_bind ?_
          exact (hjudge _ (hvalues m hm) _ m.value.before.property rest hrest).map _
        obtain ⟨outcome, houtcome⟩ := decides_members [] gap hmember
        refine ⟨outcome.map fun members => .object members.reverse, fun rest => ?_⟩
        rw [objectText_append]
        exact (takes_advance _ _).yields_bind ((houtcome rest).map _)

/-! ## Names -/

theorem yields_resolved (resolved : Except Error α) (text : List Char) :
    Yields (liftM resolved) text resolved.toOption text := by
  cases resolved with
  | error e => exact ⟨e, rfl⟩
  | ok a => rfl

/-- A name is resolved as soon as it is read. -/
theorem yields_resolve {letters : List Char} {name : Option (List Char)} (h : ReadsAs letters name)
    (resolve : List Char → Except Error α) {next : α → Reader β} {result : α → Option β}
    {text rest : List Char} (hnext : ∀ a, (next a).Yields text (result a) rest) :
    Yields (do next (← resolve (← Reader.text))) (letters ++ '"' :: text)
      (name.bind fun key => (resolve key).toOption.bind result) rest :=
  (h.text text).bind fun key _ => (yields_resolved (resolve key) text).bind fun a _ => hnext a

theorem named_of_isLeaf {resolve : List Char → Except Error α} {alone content : α → Reader β}
    (halone : ∀ a, ∃ outcome, ∀ text, (alone a).Yields text outcome text) {v : List Char}
    (h : IsLeaf v) : ∃ outcome, Judges (named resolve alone content) v outcome := by
  have hrefused {c : Char} {more : List Char} (hspace : isSpace c = false)
      (hnot : c ∉ ['"', '{']) : Judges (named resolve alone content) (c :: more) none := by
    intro spaces hspaces rest _
    refine (takes_peek hspaces hspace _ _).bind_fails ?_
    split
    next => exact absurd (by decide) hnot
    next => exact absurd (by decide) hnot
    next => exact fails_throw _ _
  cases h with
  | null => exact ⟨none, hrefused (by decide) (by decide)⟩
  | ofTrue => exact ⟨none, hrefused (by decide) (by decide)⟩
  | ofFalse => exact ⟨none, hrefused (by decide) (by decide)⟩
  | number h =>
      obtain ⟨c, more, rfl, hc⟩ := h.head
      obtain ⟨hspace, hnot⟩ := not_mem_of_startsNumber hc
      exact ⟨none, hrefused hspace fun hmem => hnot (by simp at hmem ⊢; tauto)⟩
  | @string letters h =>
      obtain ⟨name, hname⟩ := readsAs_of_isLetters h
      choose result hresult using halone
      refine ⟨name.bind fun key => (resolve key).toOption.bind result, ?_⟩
      intro spaces hspaces rest _
      rw [List.cons_append, List.append_assoc]
      refine (takes_peek hspaces (by decide) _ _).yields_bind ((takes_advance _ _).yields_bind ?_)
      exact yields_resolve hname resolve fun a => hresult a rest

/-- The content that belongs to a name is the value of the only member. -/
theorem yields_named_object {resolve : List Char → Except Error α} (alone : α → Reader β)
    {content : α → Reader β} {m : Member} {members : List Member} {name : Option (List Char)}
    (hname : ReadsAs m.key.inner name) {judge : α → Option β}
    (hjudge : ∀ a, Judges (content a) m.value.inner (judge a)) (gap : Gap) {spaces : List Char}
    (hspaces : Spaces spaces) (rest : List Char) :
    (named resolve alone content).Yields (spaces ++ (objectText gap (m :: members) ++ rest))
      (name.bind fun key => (resolve key).toOption.bind fun a => (judge a).bind fun b =>
        if members = [] then some b else none) rest := by
  have htext : objectText gap (m :: members) ++ rest = '{' :: (gap.val ++
      m.key.before.val ++ '"' :: (m.key.inner ++ '"' :: (m.key.behind.val ++ ':' ::
        (m.value.before.val ++ (m.value.inner ++ (m.value.behind.val ++
          ((members.map Member.text).flatMap (',' :: ·) ++ '}' :: rest))))))) := by
    rw [objectText_append, List.map_cons, separated, List.append_assoc, text_member_append,
      List.append_assoc]
  have hkey := gap.property.append m.key.before.property
  rw [htext]
  refine (takes_peek hspaces (by decide) _ _).yields_bind ((takes_advance _ _).yields_bind ?_)
  refine (takes_peek hkey (by decide) _ _).yields_bind ?_
  refine (takes_advance _ _).yields_bind (yields_resolve hname resolve fun a => ?_)
  refine (takes_colon_behind m.key.behind.property _).yields_bind ?_
  refine (hjudge a _ m.value.before.property _
    (delimited_members members m.value.behind.property rest)).bind fun b _ => ?_
  cases members with
  | nil =>
      refine (takes_peek m.value.behind.property (by decide) _ _).yields_bind ?_
      exact (takes_advance _ _).bind (Takes.pure b rest)
  | cons next members =>
      exact (takes_peek m.value.behind.property (by decide) _ _).bind_fails
        (Fails.bind (fails_throw _ _) _)

theorem decides_named {resolve : List Char → Except Error α} {alone content : α → Reader β}
    (halone : ∀ a, ∃ outcome, ∀ text, (alone a).Yields text outcome text)
    (hcontent : ∀ a, Decides (content a)) : Decides (named resolve alone content) := by
  intro v hv
  cases hv with
  | leaf h => exact named_of_isLeaf halone h
  | list gap h =>
      exact ⟨none, fun spaces hspaces rest _ =>
        (takes_peek hspaces (by decide) _ _).bind_fails (fails_throw _ _)⟩
  | @object gap members hkeys h =>
      cases members with
      | nil =>
          refine ⟨none, fun spaces hspaces rest _ => ?_⟩
          rw [objectText_append]
          refine (takes_peek hspaces (by decide) _ _).bind_fails ((takes_advance _ _).bind_fails ?_)
          exact (takes_peek gap.property (by decide) _ _).bind_fails
            (Fails.bind (fails_throw _ _) _)
      | cons m members =>
          obtain ⟨name, hname⟩ := readsAs_of_isLetters (hkeys m List.mem_cons_self)
          choose judge hjudge using fun a => hcontent a _ (h m List.mem_cons_self)
          exact ⟨_, fun spaces hspaces rest _ =>
            yields_named_object alone hname hjudge gap hspaces rest⟩

end BankTrace.Json.Reader
