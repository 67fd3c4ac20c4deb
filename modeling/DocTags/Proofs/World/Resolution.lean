import DocTags.Proofs.Text.Lines
import DocTags.World.Resolver

/-!
# How a name resolves

The candidates for a name are tried in order, and the first that leads somewhere counts. A candidate
that starts with no segment, since it is empty or starts with a point, cannot be looked up: the
resolution breaks off there. Otherwise the name resolves to something other than null, or no type is
found. A name has such a candidate if it consists of separators, or if a search module is such a
path itself.
-/

namespace DocTags

open Text

namespace Entity

variable {e m : Entity} {name : String} {names : List String}

theorem isNull_of_member? (h : e.member? name = some m) : m.toDatum.isNull = false := by
  rw [member?] at h
  split at h
  · next d _ =>
      split at h
      · cases h
      · next hnull =>
          obtain rfl := Option.some.inj h
          exact Bool.eq_false_iff.mpr hnull
  · next hne =>
      cases m with
      | constant d => exact absurd h (hne d)
      | type | function | module => rfl

/-- What names lead to from something other than null is not null. -/
theorem isNull_of_walk? (he : e.toDatum.isNull = false) (h : e.walk? names = some m) :
    m.toDatum.isNull = false := by
  induction names generalizing e with
  | nil => exact Option.some.inj h ▸ he
  | cons name names ih =>
      rw [walk?, Option.bind_eq_some_iff] at h
      obtain ⟨next, hnext, h⟩ := h
      exact ih (isNull_of_member? hnext) h

end Entity

theorem World.isNull_of_module? {w : World} {name : String} {m : Entity}
    (h : w.module? name = some m) : m.toDatum.isNull = false := by
  rw [World.module?] at h
  split at h
  · exact Option.some.inj h ▸ rfl
  · split at h
    · exact Option.some.inj h ▸ rfl
    · cases h

namespace Resolver

variable {w : World} {r : Resolver} {name text : String} {path : List Char}

/-- The path starts with a segment, so that its front parts can be looked up as modules. -/
def isImportable (path : List Char) : Bool :=
  path.head?.any (· != '.')

/-- The fault of a path that starts with no segment. -/
def moduleFault (path : List Char) : Fault :=
  if path.isEmpty then .emptyModuleName else .relativeModuleName

theorem isImportable_iff : isImportable path = true ↔ ∃ c s, path = c :: s ∧ c ≠ '.' := by
  cases path with
  | nil => simp [isImportable]
  | cons c s => simp [isImportable]

/-- Segments of which the first is not empty are looked up, down to the first one. -/
theorem findFrom_cons (c : Char) (hc : c ≠ '.') (first : List Char) (rest : List (List Char))
    (n : Nat) : ∃ found, findFrom w ((c :: first) :: rest) n = .ok found
      ∧ ∀ e ∈ found, e.toDatum.isNull = false := by
  induction n with
  | zero => exact ⟨none, rfl, by simp⟩
  | succ n ih =>
      have hname : ∃ s, dotted (((c :: first) :: rest).take (n + 1)) = c :: s := by
        rw [List.take_succ_cons, dotted, join_cons_eq_flatMap, List.cons_append]
        exact ⟨_, rfl⟩
      obtain ⟨s, hs⟩ := hname
      rw [findFrom, hs]
      simp only [List.isEmpty_cons, Bool.false_eq_true, if_false, List.head?_cons,
        Option.some.injEq, hc]
      split
      · next m hm =>
          exact ⟨_, rfl, fun e he => Entity.isNull_of_walk? (World.isNull_of_module? hm) he⟩
      · exact ih

/-- A path that starts with a segment leads to something other than null, or nowhere. -/
theorem find_of_isImportable (w : World) (h : isImportable path = true) :
    ∃ found, find w path = .ok found ∧ ∀ e ∈ found, e.toDatum.isNull = false := by
  obtain ⟨c, s, rfl, hc⟩ := isImportable_iff.mp h
  have hsegments : ∃ first rest, splitAt '.' (c :: s) = (c :: first) :: rest := by
    rw [splitAt, if_neg hc]
    cases hs : splitAt '.' s with
    | nil => exact absurd hs (splitAt_ne_nil '.' s)
    | cons first rest => exact ⟨first, rest, rfl⟩
  obtain ⟨first, rest, hsegments⟩ := hsegments
  rw [find, hsegments]
  exact findFrom_cons c hc first rest _

/-- Any other path cannot be looked up. -/
theorem find_of_not_isImportable (w : World) (h : isImportable path = false) :
    find w path = .error (moduleFault path) := by
  cases path with
  | nil => rfl
  | cons c s =>
      obtain rfl : c = '.' := by simpa [isImportable] using h
      obtain ⟨first, rest, hs⟩ := List.exists_cons_of_ne_nil (splitAt_ne_nil '.' s)
      have hname : dotted (([] :: first :: rest).take (rest.length + 2))
          = '.' :: dotted (first :: rest) := by
        rw [List.take_of_length_le (by simp), dotted, dotted, join_cons_eq_flatMap,
          join_cons_eq_flatMap]
        rfl
      rw [find, splitAt, if_pos rfl, hs, List.length_cons, List.length_cons, findFrom, hname]
      rfl

/-- Candidates that lead nowhere are passed over. -/
theorem findFirst_append {before : List (List Char)} (h : ∀ p ∈ before, find w p = .ok none)
    (rest : List (List Char)) : findFirst w (before ++ rest) = findFirst w rest := by
  induction before with
  | nil => rfl
  | cons p before ih =>
      rw [List.forall_mem_cons] at h
      rw [List.cons_append, findFirst, h.1]
      exact ih h.2

/-- Either all candidates lead nowhere, or there is a first one that does not. -/
theorem forall_or_exists_first (w : World) (paths : List (List Char)) :
    (∀ p ∈ paths, find w p = .ok none)
      ∨ ∃ before path after, paths = before ++ path :: after
        ∧ (∀ p ∈ before, find w p = .ok none) ∧ find w path ≠ .ok none := by
  induction paths with
  | nil => exact .inl (by simp)
  | cons p paths ih =>
      by_cases hp : find w p = .ok none
      · rcases ih with hall | ⟨before, path, after, rfl, hbefore, hpath⟩
        · exact .inl (List.forall_mem_cons.mpr ⟨hp, hall⟩)
        · exact .inr ⟨p :: before, path, after, rfl, List.forall_mem_cons.mpr ⟨hp, hbefore⟩, hpath⟩
      · exact .inr ⟨[], p, paths, rfl, by simp, hp⟩

/-- The resolution of a name breaks off at a candidate: it starts with no segment, and those in
front of it lead nowhere. -/
def BreaksAt (r : Resolver) (name : String) (path : List Char) : Prop :=
  ∃ before after, candidates r.searchModules (normalName name.toList) = before ++ path :: after
    ∧ (∀ p ∈ before, find r.world p = .ok none) ∧ isImportable path = false

/-- The name resolves as declared: to something other than null, or to the problem that no type is
found. -/
def Resolves (r : Resolver) (name : String) : Prop :=
  (∃ handle, r.resolveType name = .ok handle ∧ handle.target.toDatum.isNull = false)
    ∨ r.resolveType name = .error (.problem (.unresolved
      (.typeNotFound (String.ofList (normalName name.toList))
        "not importable from any search module") []))

theorem resolveType_of_breaksAt (h : r.BreaksAt name path) :
    r.resolveType name = .error (.fault (moduleFault path)) := by
  obtain ⟨before, after, hpaths, hbefore, hpath⟩ := h
  have hfirst : findFirst r.world (candidates r.searchModules (normalName name.toList))
      = .error (moduleFault path) := by
    rw [hpaths, findFirst_append hbefore, findFirst, find_of_not_isImportable r.world hpath]
    rfl
  rw [resolveType, hfirst]

theorem resolves_of_forall_not_breaksAt (h : ∀ path, ¬ r.BreaksAt name path) :
    r.Resolves name := by
  rcases forall_or_exists_first r.world (candidates r.searchModules (normalName name.toList)) with
    hall | ⟨before, path, after, hpaths, hbefore, hpath⟩
  · have hnone : findFirst r.world (candidates r.searchModules (normalName name.toList))
        = .ok none := by
      rw [← List.append_nil (candidates _ _), findFirst_append hall]
      rfl
    exact .inr (by rw [resolveType, hnone])
  · have himportable : isImportable path = true :=
      eq_true_of_ne_false fun hfalse => h path ⟨before, after, hpaths, hbefore, hfalse⟩
    obtain ⟨found, hfound, hnull⟩ := find_of_isImportable r.world himportable
    obtain ⟨e, rfl⟩ := Option.ne_none_iff_exists'.mp fun hnone => hpath (hnone ▸ hfound)
    have hfirst : findFirst r.world (candidates r.searchModules (normalName name.toList))
        = .ok (some ⟨String.ofList path, e⟩) := by
      rw [hpaths, findFirst_append hbefore, findFirst, hfound]
      rfl
    exact .inl ⟨_, by rw [resolveType, hfirst], hnull e rfl⟩

theorem resolves_iff : r.Resolves name ↔ ∀ path, ¬ r.BreaksAt name path := by
  refine ⟨fun h path hbreaks => ?_, resolves_of_forall_not_breaksAt⟩
  rw [Resolves, resolveType_of_breaksAt hbreaks] at h
  rcases h with ⟨handle, hhandle, -⟩ | hproblem
  · cases hhandle
  · cases hproblem

theorem normalName_eq_nil_iff {s : List Char} :
    normalName s = [] ↔ ∀ c ∈ s, c = '.' ∨ c = '\\' := by
  rw [normalName, trimWhere_eq_nil_iff, replaceChar, List.forall_mem_map]
  refine forall₂_congr fun c _ => ?_
  by_cases hc : c = '\\' <;> simp [hc]

theorem isImportable_normalName {s : List Char} (h : normalName s ≠ []) :
    isImportable (normalName s) = true := by
  obtain ⟨c, rest, hs⟩ := List.exists_cons_of_ne_nil h
  have hc : (c == '.') = false := not_of_trimWhere_eq_cons (p := (· == '.')) hs
  exact isImportable_iff.mpr ⟨c, rest, hs, beq_eq_false_iff_ne.mp hc⟩

/-- A name in a module starts with a segment if the module does. -/
theorem isImportable_append (m s : List Char) : isImportable (m ++ '.' :: s) = isImportable m := by
  cases m <;> rfl

/-- Where a resolution breaks off, the name consists of separators or a search module is at
fault. -/
theorem BreaksAt.cases (h : r.BreaksAt name path) :
    (∀ c ∈ name.toList, c = '.' ∨ c = '\\')
      ∨ ∃ m ∈ r.searchModules, isImportable m.toList = false := by
  obtain ⟨before, after, hpaths, -, hpath⟩ := h
  have hmem : path = normalName name.toList
      ∨ ∃ m ∈ r.searchModules, m.toList ++ '.' :: normalName name.toList = path := by
    have hcandidate : path ∈ candidates r.searchModules (normalName name.toList) := by
      rw [hpaths]
      exact List.mem_append_right before List.mem_cons_self
    rw [candidates] at hcandidate
    split at hcandidate
    · simpa only [List.mem_cons, List.mem_map] using hcandidate
    · simpa only [List.mem_append, List.mem_map, List.mem_singleton, or_comm] using hcandidate
  rcases hmem with rfl | ⟨m, hm, rfl⟩
  · refine .inl (normalName_eq_nil_iff.mp ?_)
    by_contra hne
    exact Bool.false_ne_true (hpath.symm.trans (isImportable_normalName hne))
  · exact .inr ⟨m, hm, isImportable_append m.toList _ ▸ hpath⟩

/-- The text names a member of a type with two colons between them. -/
def NamesConstant (text : String) (type member : List Char) : Prop :=
  countColonPairs text.toList = 1 ∧ cutAtColons? text.toList = some (type, member)
    ∧ type ≠ [] ∧ member ≠ []

/-- A text that names a member of a type has a value, perhaps null, if the type resolves. -/
theorem constant_of_resolves {type member : List Char} (h : NamesConstant text type member)
    (hresolves : r.Resolves (String.ofList type)) : ∃ d, r.constant text = .ok d := by
  obtain ⟨hcount, hcut, htype, hmember⟩ := h
  rw [constant, hcount, hcut]
  simp only [List.isEmpty_eq_false_iff.mpr htype, List.isEmpty_eq_false_iff.mpr hmember,
    Bool.or_false, Bool.false_eq_true, if_false]
  rcases hresolves with ⟨handle, hhandle, -⟩ | hproblem
  · rw [hhandle]
    exact ⟨_, rfl⟩
  · rw [hproblem]
    exact ⟨_, rfl⟩

theorem constant_of_breaksAt {type member : List Char} (h : NamesConstant text type member)
    (hbreaks : r.BreaksAt (String.ofList type) path) :
    r.constant text = .error (.fault (moduleFault path)) := by
  obtain ⟨hcount, hcut, htype, hmember⟩ := h
  rw [constant, hcount, hcut]
  simp only [List.isEmpty_eq_false_iff.mpr htype, List.isEmpty_eq_false_iff.mpr hmember,
    Bool.or_false, Bool.false_eq_true, if_false, resolveType_of_breaksAt hbreaks]

/-- Any other text names nothing. -/
theorem constant_of_forall_not (h : ∀ type member, ¬ NamesConstant text type member) :
    r.constant text = .ok .null := by
  rw [constant]
  split
  · next type member hcount hcut =>
      split
      · rfl
      · next hempty =>
          rw [Bool.or_eq_true, not_or, List.isEmpty_iff, List.isEmpty_iff] at hempty
          exact absurd ⟨hcount, hcut, hempty⟩ (h type member)
  · rfl

/-- A constant is looked up without a failure if and only if the resolution of its type does not
break off. -/
theorem constant_eq_ok_iff : (∃ d, r.constant text = .ok d)
    ↔ ∀ type member path, NamesConstant text type member →
      ¬ r.BreaksAt (String.ofList type) path := by
  constructor
  · rintro ⟨d, hd⟩ type member path hnames hbreaks
    rw [constant_of_breaksAt hnames hbreaks] at hd
    cases hd
  · intro h
    by_cases hnames : ∃ type member, NamesConstant text type member
    · obtain ⟨type, member, hnames⟩ := hnames
      exact constant_of_resolves hnames (resolves_iff.mpr fun path => h type member path hnames)
    · exact ⟨_, constant_of_forall_not fun type member hm => hnames ⟨type, member, hm⟩⟩

/-- A name resolves as declared, and a constant is looked up without a failure, if and only if no
resolution breaks off. Where one breaks off, it ends in the fault of the candidate, and the name
consists of separators or a search module starts with no segment. -/
theorem resolves_iff_not_breaksAt (r : Resolver) :
    (∀ name, r.Resolves name ↔ ∀ path, ¬ r.BreaksAt name path)
    ∧ (∀ text, (∃ d, r.constant text = .ok d)
        ↔ ∀ type member path, NamesConstant text type member →
          ¬ r.BreaksAt (String.ofList type) path)
    ∧ ∀ name path, r.BreaksAt name path →
        r.resolveType name = .error (.fault (moduleFault path))
        ∧ ((∀ c ∈ name.toList, c = '.' ∨ c = '\\')
          ∨ ∃ m ∈ r.searchModules, isImportable m.toList = false) := by
  refine ⟨fun name => resolves_iff, fun text => constant_eq_ok_iff, ?_⟩
  intro name path h
  exact ⟨resolveType_of_breaksAt h, h.cases⟩

/-- A point alone breaks off at the empty path. -/
theorem resolves_iff_not_breaksAt_point : ∃ r : Resolver,
    r.BreaksAt "." [] ∧ r.resolveType "." = .error (.fault .emptyModuleName)
      ∧ ¬ r.Resolves "." := by
  have hbreaks : Resolver.BreaksAt { world := {} } "." [] := ⟨[], [], by decide, by simp, rfl⟩
  obtain ⟨hresolves, -, hfault⟩ := resolves_iff_not_breaksAt { world := {} }
  exact ⟨_, hbreaks, (hfault "." [] hbreaks).1, fun h => (hresolves ".").mp h [] hbreaks⟩

/-- Not every name resolves as declared, and not every constant is looked up without a failure. -/
theorem not_forall_resolves :
    ¬ ∀ r : Resolver, (∀ name, r.Resolves name) ∧ ∀ text, ∃ d, r.constant text = .ok d := by
  intro h
  obtain ⟨d, hd⟩ := (h { world := {} }).2 ".::X"
  have hbreaks : Resolver.BreaksAt { world := {} } (String.ofList ['.']) [] :=
    ⟨[], [], by decide, by simp, rfl⟩
  have hnames : NamesConstant ".::X" ['.'] ['X'] := ⟨by decide, by decide, by decide, by decide⟩
  rw [constant_of_breaksAt hnames hbreaks] at hd
  cases hd

end Resolver

end DocTags
