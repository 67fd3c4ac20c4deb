import DocTags.Proofs.World.Resolution

/-!
# Which type a name resolves to

A dotted path leads to what the names behind its longest module lead to, member by member. A name is
looked for under several paths, and it resolves to what the first of them leads to that leads
anywhere. How the segments of the name are separated makes no difference.
-/

namespace DocTags

open Text

/-- Names lead from one entity to another, from member to member. None of the members is null. -/
inductive Entity.Reaches : Entity → List String → Entity → Prop where
  | here (e : Entity) : Reaches e [] e
  | member {e m found : Entity} {name : String} {names : List String}
    (hmember : e.members.lookup name = some m) (hnull : m.toDatum.isNull = false)
    (h : Reaches m names found) : Reaches e (name :: names) found

namespace Entity

variable {e m found : Entity} {name : String} {names : List String}

theorem member?_eq_some_iff :
    e.member? name = some m ↔ e.members.lookup name = some m ∧ m.toDatum.isNull = false := by
  constructor
  · intro h
    refine ⟨?_, isNull_of_member? h⟩
    rw [member?] at h
    split at h
    · next d hd =>
        split at h
        · cases h
        · exact hd.trans h
    · exact h
  · rintro ⟨hlookup, hnull⟩
    rw [member?, hlookup]
    cases m with
    | constant d => exact if_neg (Bool.eq_false_iff.mp hnull)
    | type | function | module => rfl

theorem walk?_eq_some_iff : e.walk? names = some found ↔ e.Reaches names found := by
  constructor
  · intro h
    induction names generalizing e with
    | nil => exact Option.some.inj h ▸ .here e
    | cons name names ih =>
        rw [walk?, Option.bind_eq_some_iff] at h
        obtain ⟨m, hm, h⟩ := h
        rw [member?_eq_some_iff] at hm
        exact .member hm.1 hm.2 (ih h)
  · intro h
    induction h with
    | here e => rfl
    | member hmember hnull h ih =>
        rw [walk?, member?_eq_some_iff.mpr ⟨hmember, hnull⟩]
        exact ih

end Entity

namespace Resolver

variable {w : World} {found : Entity} {segments : List (List Char)} {path : List Char}
  {paths : List (List Char)} {handle : TypeHandle}

/-- The segments lead to what those behind the first `n` lead to, which are the most segments that
are a module. -/
def LeadsTo (w : World) (segments : List (List Char)) (found : Entity) : Prop :=
  ∃ n m, 0 < n ∧ n ≤ segments.length
    ∧ w.module? (String.ofList (dotted (segments.take n))) = some m
    ∧ (∀ k, n < k → k ≤ segments.length →
      w.module? (String.ofList (dotted (segments.take k))) = none)
    ∧ m.Reaches ((segments.drop n).map String.ofList) found

/-- Segments of which the first starts with no point are looked up one by one. -/
theorem findFrom_succ {first : List Char} {rest : List (List Char)}
    (h : isImportable first = true) (n : Nat) :
    findFrom w (first :: rest) (n + 1)
      = match w.module? (String.ofList (dotted ((first :: rest).take (n + 1)))) with
        | some m => .ok (m.walk? (((first :: rest).drop (n + 1)).map String.ofList))
        | none => findFrom w (first :: rest) n := by
  obtain ⟨c, s, rfl, hc⟩ := isImportable_iff.mp h
  have hname : ∃ t, dotted (((c :: s) :: rest).take (n + 1)) = c :: t := by
    rw [List.take_succ_cons, dotted, join_cons_eq_flatMap, List.cons_append]
    exact ⟨_, rfl⟩
  obtain ⟨t, ht⟩ := hname
  have hpoint : ¬ (c :: t).head? = some '.' := by simpa using hc
  rw [findFrom, ht]
  cases w.module? (String.ofList (c :: t)) <;>
    simp only [List.isEmpty_cons, Bool.false_eq_true, if_false, if_neg hpoint]

/-- From some number of segments downwards, the first number of them counts that is a module. -/
theorem findFrom_eq_some_iff {first : List Char} {rest : List (List Char)}
    (h : isImportable first = true) (n : Nat) :
    findFrom w (first :: rest) n = .ok (some found) ↔ ∃ k m, 0 < k ∧ k ≤ n
      ∧ w.module? (String.ofList (dotted ((first :: rest).take k))) = some m
      ∧ (∀ j, k < j → j ≤ n →
        w.module? (String.ofList (dotted ((first :: rest).take j))) = none)
      ∧ m.Reaches (((first :: rest).drop k).map String.ofList) found := by
  induction n with
  | zero =>
      refine iff_of_false (fun h => nomatch h) ?_
      rintro ⟨k, m, hk, hle, -⟩
      omega
  | succ n ih =>
      rw [findFrom_succ h]
      cases hm : w.module? (String.ofList (dotted ((first :: rest).take (n + 1)))) with
      | some m =>
          simp only [Except.ok.injEq, Entity.walk?_eq_some_iff]
          constructor
          · intro hreaches
            exact ⟨n + 1, m, n.succ_pos, le_rfl, hm, fun j hj hle => by omega, hreaches⟩
          · rintro ⟨k, m', hk, hle, hm', hlongest, hreaches⟩
            obtain rfl : k = n + 1 := by
              by_contra hne
              have hnone := hlongest (n + 1) (by omega) le_rfl
              rw [hm] at hnone
              cases hnone
            rw [hm] at hm'
            exact Option.some.inj hm' ▸ hreaches
      | none =>
          simp only [ih]
          constructor
          · rintro ⟨k, m, hk, hle, hkm, hlongest, hreaches⟩
            refine ⟨k, m, hk, by omega, hkm, fun j hj hle => ?_, hreaches⟩
            rcases Nat.le_succ_iff.mp hle with hle | rfl
            · exact hlongest j hj hle
            · exact hm
          · rintro ⟨k, m, hk, hle, hkm, hlongest, hreaches⟩
            rcases Nat.le_succ_iff.mp hle with hle | rfl
            · exact ⟨k, m, hk, hle, hkm, fun j hj hj' => hlongest j hj (by omega), hreaches⟩
            · rw [hm] at hkm
              cases hkm

/-- A path that starts with a segment is found exactly where its segments lead. -/
theorem find_eq_some_iff (h : isImportable path = true) :
    find w path = .ok (some found) ↔ LeadsTo w (splitAt '.' path) found := by
  obtain ⟨c, s, rfl, hc⟩ := isImportable_iff.mp h
  obtain ⟨first, rest, hs⟩ := List.exists_cons_of_ne_nil (splitAt_ne_nil '.' s)
  have hsegments : splitAt '.' (c :: s) = (c :: first) :: rest := by
    rw [splitAt, if_neg hc, hs]
  rw [find, hsegments]
  exact findFrom_eq_some_iff (isImportable_iff.mpr ⟨c, first, rfl, hc⟩) _

theorem find_eq_none_iff (h : isImportable path = true) :
    find w path = .ok none ↔ ∀ found, ¬ LeadsTo w (splitAt '.' path) found := by
  obtain ⟨found?, hfind, -⟩ := find_of_isImportable w h
  simp only [← find_eq_some_iff h, hfind, Except.ok.injEq]
  cases found? <;> simp

/-- Of paths that start with segments, the first that leads anywhere is found. -/
theorem findFirst_cases (h : ∀ p ∈ paths, isImportable p = true) :
    ((∀ p ∈ paths, find w p = .ok none) ∧ findFirst w paths = .ok none)
      ∨ ∃ before path after e, paths = before ++ path :: after
        ∧ (∀ p ∈ before, find w p = .ok none) ∧ find w path = .ok (some e)
        ∧ findFirst w paths = .ok (some ⟨String.ofList path, e⟩) := by
  rcases forall_or_exists_first w paths with hall | ⟨before, path, after, rfl, hbefore, hpath⟩
  · refine .inl ⟨hall, ?_⟩
    rw [← List.append_nil paths, findFirst_append hall]
    rfl
  · obtain ⟨found?, hfind, -⟩ := find_of_isImportable w (h path (by simp))
    obtain ⟨e, rfl⟩ := Option.ne_none_iff_exists'.mp fun hnone => hpath (hnone ▸ hfind)
    refine .inr ⟨before, path, after, e, rfl, hbefore, hfind, ?_⟩
    rw [findFirst_append hbefore, findFirst, hfind]
    rfl

theorem findFirst_eq_some_iff (h : ∀ p ∈ paths, isImportable p = true) :
    findFirst w paths = .ok (some handle) ↔ ∃ before path after, paths = before ++ path :: after
      ∧ (∀ p ∈ before, ∀ e, ¬ LeadsTo w (splitAt '.' p) e)
      ∧ LeadsTo w (splitAt '.' path) handle.target ∧ handle.name = String.ofList path := by
  constructor
  · intro hfirst
    rcases findFirst_cases (w := w) h with
      ⟨-, hnone⟩ | ⟨before, path, after, e, rfl, hbefore, hfind, hsome⟩
    · rw [hnone] at hfirst
      cases hfirst
    · obtain rfl := Option.some.inj (Except.ok.inj (hsome.symm.trans hfirst))
      rw [List.forall_mem_append, List.forall_mem_cons] at h
      exact ⟨before, path, after, rfl, fun p hp => (find_eq_none_iff (h.1 p hp)).mp (hbefore p hp),
        (find_eq_some_iff h.2.1).mp hfind, rfl⟩
  · rintro ⟨before, path, after, rfl, hbefore, hpath, hname⟩
    rw [List.forall_mem_append, List.forall_mem_cons] at h
    have hnone : ∀ p ∈ before, find w p = .ok none := fun p hp =>
      (find_eq_none_iff (h.1 p hp)).mpr (hbefore p hp)
    rw [findFirst_append hnone, findFirst, (find_eq_some_iff h.2.1).mpr hpath, ← hname]
    rfl

theorem findFirst_eq_none_iff (h : ∀ p ∈ paths, isImportable p = true) :
    findFirst w paths = .ok none ↔ ∀ p ∈ paths, ∀ e, ¬ LeadsTo w (splitAt '.' p) e := by
  rcases findFirst_cases (w := w) h with
    ⟨hall, hnone⟩ | ⟨before, path, after, e, rfl, -, hfind, hsome⟩
  · exact iff_of_true hnone fun p hp => (find_eq_none_iff (h p hp)).mp (hall p hp)
  · refine iff_of_false (by simp [hsome]) fun hnowhere => ?_
    exact hnowhere path (by simp) e ((find_eq_some_iff (h path (by simp))).mp hfind)

theorem dotted_singleton (s : List Char) : dotted [s] = s := by
  rw [dotted, join_cons_eq_flatMap, List.flatMap_nil, List.append_nil]

theorem dotted_append {front rest : List (List Char)} (hfront : front ≠ []) (hrest : rest ≠ []) :
    dotted (front ++ rest) = dotted front ++ '.' :: dotted rest := by
  rw [dotted, join_append hfront hrest, List.append_assoc]
  rfl

/-- There are segments, and every one has characters, none of which separates segments. -/
structure AreSegments (segments : List (List Char)) : Prop where
  ne_nil : segments ≠ []
  solid : ∀ s ∈ segments, s ≠ [] ∧ '.' ∉ s ∧ '\\' ∉ s

/-- The character separates segments. -/
def IsSeparator (c : Char) : Prop :=
  c = '.' ∨ c = '\\'

/-- The segments stand in the text one after another, with one separator between two. -/
inductive StandIn : List (List Char) → List Char → Prop where
  | single (s : List Char) : StandIn [s] s
  | cons (s : List Char) {c : Char} {segments : List (List Char)} {text : List Char}
    (hc : IsSeparator c) (h : StandIn segments text) : StandIn (s :: segments) (s ++ c :: text)

/-- The name has the segments, and perhaps separators at its ends. -/
def HasSegments (name : List Char) (segments : List (List Char)) : Prop :=
  ∃ lead text trail, name = lead ++ text ++ trail ∧ StandIn segments text
    ∧ (∀ c ∈ lead, IsSeparator c) ∧ ∀ c ∈ trail, IsSeparator c

/-- The segments that a name with the given ones is looked for under: in each search module and as
it is, a name with several segments as it is first. -/
def pathsOf (searchModules : List String) (segments : List (List Char)) : List (List (List Char)) :=
  let relative := searchModules.map fun m => splitAt '.' m.toList ++ segments
  if segments.length = 1 then relative ++ [segments] else segments :: relative

namespace AreSegments

theorem splitAt_dotted (h : AreSegments segments) : splitAt '.' (dotted segments) = segments :=
  splitAt_join h.ne_nil fun s hs => (h.solid s hs).2.1

/-- Several segments have a point between them. -/
theorem contains_iff (h : AreSegments segments) :
    (dotted segments).contains '.' = true ↔ segments.length ≠ 1 := by
  obtain ⟨first, rest, rfl⟩ := List.exists_cons_of_ne_nil h.ne_nil
  have hfirst := (h.solid first List.mem_cons_self).2.1
  rw [dotted, join_cons_eq_flatMap, List.contains_iff_mem]
  cases rest with
  | nil => simpa using hfirst
  | cons second rest => simp

/-- The first character of a dotted name is no point. -/
theorem head?_dotted (h : AreSegments segments) :
    ∃ c, (dotted segments).head? = some c ∧ c ≠ '.' := by
  obtain ⟨first, rest, rfl⟩ := List.exists_cons_of_ne_nil h.ne_nil
  obtain ⟨hne, hpoint, -⟩ := h.solid first List.mem_cons_self
  obtain ⟨c, s, rfl⟩ := List.exists_cons_of_ne_nil hne
  rw [dotted, join_cons_eq_flatMap]
  exact ⟨c, rfl, fun hc => hpoint (hc ▸ List.mem_cons_self)⟩

/-- The last character of a dotted name is no point. -/
theorem getLast?_dotted (h : AreSegments segments) :
    ∃ c, (dotted segments).getLast? = some c ∧ c ≠ '.' := by
  obtain ⟨init, last, rfl⟩ : ∃ init last, segments = init ++ [last] :=
    ⟨_, _, (List.dropLast_append_getLast h.ne_nil).symm⟩
  obtain ⟨hne, hpoint, -⟩ := h.solid last (by simp)
  obtain ⟨front, hfront⟩ : ∃ front, dotted (init ++ [last]) = front ++ last := by
    by_cases hinit : init = []
    · exact ⟨[], by rw [hinit, List.nil_append, dotted_singleton, List.nil_append]⟩
    · refine ⟨dotted init ++ ['.'], ?_⟩
      rw [dotted_append hinit (List.cons_ne_nil last []), dotted_singleton, List.append_assoc]
      rfl
  refine ⟨last.getLast hne, ?_, fun hc => hpoint (hc ▸ List.getLast_mem hne)⟩
  rw [hfront, List.getLast?_append_of_ne_nil _ hne, List.getLast?_eq_some_getLast hne]

end AreSegments

/-- The candidates for a name, in segments. -/
theorem candidates_dotted (h : AreSegments segments) (searchModules : List String) :
    candidates searchModules (dotted segments) = (pathsOf searchModules segments).map dotted := by
  have hrelative : ∀ m : String,
      dotted (splitAt '.' m.toList ++ segments) = m.toList ++ '.' :: dotted segments := by
    intro m
    rw [dotted_append (splitAt_ne_nil _ _) h.ne_nil, dotted, join_splitAt]
  rw [candidates, pathsOf]
  by_cases hlength : segments.length = 1
  · rw [if_neg fun hpoint => h.contains_iff.mp hpoint hlength, if_pos hlength]
    simp [hrelative]
  · rw [if_pos (h.contains_iff.mpr hlength), if_neg hlength]
    simp [hrelative]

/-- Where segments stand in a text, they are separated by points in its normal form. -/
theorem replaceChar_of_standIn {text : List Char} (h : StandIn segments text)
    (hsolid : ∀ s ∈ segments, '\\' ∉ s) : replaceChar '\\' '.' text = dotted segments := by
  have hkept : ∀ s : List Char, '\\' ∉ s → replaceChar '\\' '.' s = s := by
    intro s hs
    have hid : s.map (fun c => if c = '\\' then '.' else c) = s.map id :=
      List.map_congr_left fun c hc => if_neg (ne_of_mem_of_not_mem hc hs)
    rw [replaceChar, hid, List.map_id]
  induction h with
  | single s => rw [hkept s (hsolid s List.mem_cons_self), dotted_singleton]
  | @cons s c segments text hc h ih =>
      rw [List.forall_mem_cons] at hsolid
      have hne : segments ≠ [] := by cases h <;> simp
      have hpoint : replaceChar '\\' '.' (c :: text) = '.' :: replaceChar '\\' '.' text := by
        rcases hc with rfl | rfl <;> rfl
      have hdotted : dotted (s :: segments) = s ++ '.' :: dotted segments := by
        rw [← List.singleton_append, dotted_append (List.cons_ne_nil s []) hne, dotted_singleton]
      rw [hdotted, ← ih hsolid.2, ← hpoint, replaceChar, List.map_append]
      exact congrArg (· ++ replaceChar '\\' '.' (c :: text)) (hkept s hsolid.1)

theorem normalName_of_hasSegments (h : AreSegments segments) {name : List Char}
    (hname : HasSegments name segments) : normalName name = dotted segments := by
  have hpoints : ∀ s : List Char, (∀ c ∈ s, IsSeparator c) →
      ∀ c ∈ replaceChar '\\' '.' s, (c == '.') = true := by
    intro s hs
    refine List.forall_mem_map.mpr fun c hc => ?_
    rcases hs c hc with rfl | rfl <;> rfl
  obtain ⟨lead, text, trail, rfl, htext, hlead, htrail⟩ := hname
  obtain ⟨c, hc, hcpoint⟩ := h.head?_dotted
  obtain ⟨d, hd, hdpoint⟩ := h.getLast?_dotted
  have hparts : replaceChar '\\' '.' (lead ++ text ++ trail)
      = replaceChar '\\' '.' lead ++ dotted segments ++ replaceChar '\\' '.' trail := by
    rw [← replaceChar_of_standIn htext fun s hs => (h.solid s hs).2.2]
    simp only [replaceChar, List.map_append]
  rw [normalName, hparts]
  exact trimWhere_append (hpoints lead hlead) (hpoints trail htrail) hc (by simpa using hcpoint) hd
    (by simpa using hdpoint)

variable {r : Resolver} {name : String}

/-- Every candidate for a name starts with a segment if the search modules do. -/
theorem isImportable_of_mem_pathsOf (h : AreSegments segments) {searchModules : List String}
    (hmodules : ∀ m ∈ searchModules, isImportable m.toList = true) :
    ∀ p ∈ (pathsOf searchModules segments).map dotted, isImportable p = true := by
  have hown : isImportable (dotted segments) = true := by
    obtain ⟨c, hc, hcpoint⟩ := h.head?_dotted
    simpa [isImportable, hc] using hcpoint
  rw [← candidates_dotted h, candidates]
  have hrelative : ∀ p ∈ searchModules.map (fun m => m.toList ++ '.' :: dotted segments),
      isImportable p = true :=
    List.forall_mem_map.mpr fun m hm => (isImportable_append _ _).trans (hmodules m hm)
  split
  · exact List.forall_mem_cons.mpr ⟨hown, hrelative⟩
  · exact List.forall_mem_append.mpr ⟨hrelative, List.forall_mem_singleton.mpr hown⟩

/-- Candidates are cut into their segments again. -/
theorem splitAt_dotted_of_mem_pathsOf (h : AreSegments segments) {searchModules : List String} :
    ∀ p ∈ pathsOf searchModules segments, splitAt '.' (dotted p) = p := by
  have hrelative : ∀ p ∈ searchModules.map (fun m => splitAt '.' m.toList ++ segments),
      splitAt '.' (dotted p) = p := by
    refine List.forall_mem_map.mpr fun m _ => splitAt_join ?_ ?_
    · exact List.append_ne_nil_of_right_ne_nil _ h.ne_nil
    · exact List.forall_mem_append.mpr
        ⟨not_mem_of_mem_splitAt m.toList, fun s hs => (h.solid s hs).2.1⟩
  rw [pathsOf]
  split
  · exact List.forall_mem_append.mpr ⟨hrelative, List.forall_mem_singleton.mpr h.splitAt_dotted⟩
  · exact List.forall_mem_cons.mpr ⟨h.splitAt_dotted, hrelative⟩

/-- The problem that no path leads anywhere. -/
def typeNotFound (segments : List (List Char)) : Problem :=
  .unresolved (.typeNotFound (String.ofList (dotted segments))
    "not importable from any search module") []

theorem code_typeNotFound (segments : List (List Char)) :
    (typeNotFound segments).code = .typeNotFound := rfl

/-- Of the paths for a name, cut into segments, the first counts that leads anywhere. -/
theorem findFirst_pathsOf_eq_some_iff (h : AreSegments segments)
    (hmodules : ∀ m ∈ r.searchModules, isImportable m.toList = true) :
    findFirst r.world ((pathsOf r.searchModules segments).map dotted) = .ok (some handle)
      ↔ ∃ before path after, pathsOf r.searchModules segments = before ++ path :: after
        ∧ (∀ p ∈ before, ∀ e, ¬ LeadsTo r.world p e)
        ∧ LeadsTo r.world path handle.target ∧ handle.name = String.ofList (dotted path) := by
  have hsplit : ∀ p ∈ pathsOf r.searchModules segments, splitAt '.' (dotted p) = p :=
    splitAt_dotted_of_mem_pathsOf h
  rw [findFirst_eq_some_iff (isImportable_of_mem_pathsOf h hmodules)]
  constructor
  · rintro ⟨before, path, after, hpaths, hbefore, hpath, hname⟩
    obtain ⟨before', others, hothers, rfl, hrest⟩ := List.map_eq_append_iff.mp hpaths
    obtain ⟨path', after', rfl, rfl, rfl⟩ := List.map_eq_cons_iff.mp hrest
    rw [hothers, List.forall_mem_append, List.forall_mem_cons] at hsplit
    refine ⟨before', path', after', hothers, fun p hp => ?_, hsplit.2.1 ▸ hpath, hname⟩
    exact hsplit.1 p hp ▸ hbefore (dotted p) (List.mem_map_of_mem hp)
  · rintro ⟨before, path, after, hpaths, hbefore, hpath, hname⟩
    rw [hpaths, List.forall_mem_append, List.forall_mem_cons] at hsplit
    refine ⟨before.map dotted, dotted path, after.map dotted, by simp [hpaths], ?_,
      hsplit.2.1.symm ▸ hpath, hname⟩
    exact List.forall_mem_map.mpr fun p hp => (hsplit.1 p hp).symm ▸ hbefore p hp

theorem findFirst_pathsOf_eq_none_iff (h : AreSegments segments)
    (hmodules : ∀ m ∈ r.searchModules, isImportable m.toList = true) :
    findFirst r.world ((pathsOf r.searchModules segments).map dotted) = .ok none
      ↔ ∀ p ∈ pathsOf r.searchModules segments, ∀ e, ¬ LeadsTo r.world p e := by
  rw [findFirst_eq_none_iff (isImportable_of_mem_pathsOf h hmodules), List.forall_mem_map]
  refine forall₂_congr fun p hp => ?_
  rw [splitAt_dotted_of_mem_pathsOf h p hp]

theorem resolveType_eq_ok_iff (h : AreSegments segments)
    (hname : HasSegments name.toList segments) :
    r.resolveType name = .ok handle
      ↔ findFirst r.world ((pathsOf r.searchModules segments).map dotted) = .ok (some handle) := by
  rw [resolveType, normalName_of_hasSegments h hname, candidates_dotted h]
  cases findFirst r.world ((pathsOf r.searchModules segments).map dotted) with
  | error e => simp
  | ok found => cases found <;> simp

/-- A resolution fails only if it finds no type. -/
theorem resolveType_eq_error_iff (h : AreSegments segments)
    (hmodules : ∀ m ∈ r.searchModules, isImportable m.toList = true)
    (hname : HasSegments name.toList segments) (e : Failure) :
    r.resolveType name = .error e
      ↔ findFirst r.world ((pathsOf r.searchModules segments).map dotted) = .ok none
        ∧ e = .problem (typeNotFound segments) := by
  rw [resolveType, normalName_of_hasSegments h hname, candidates_dotted h, typeNotFound]
  rcases findFirst_cases (w := r.world) (isImportable_of_mem_pathsOf h hmodules) with
    ⟨-, hnone⟩ | ⟨_, _, _, _, _, _, _, hsome⟩
  · simp [hnone, eq_comm]
  · simp [hsome]

/-- A name resolves to what the first of its paths leads to that leads anywhere, under that path. No
type is found exactly if none of them does. Names with the same segments resolve alike. -/
theorem resolveType_of_hasSegments (h : AreSegments segments)
    (hmodules : ∀ m ∈ r.searchModules, isImportable m.toList = true)
    (hname : HasSegments name.toList segments) :
    (∀ handle, r.resolveType name = .ok handle ↔ ∃ before path after,
      pathsOf r.searchModules segments = before ++ path :: after
        ∧ (∀ p ∈ before, ∀ e, ¬ LeadsTo r.world p e)
        ∧ LeadsTo r.world path handle.target ∧ handle.name = String.ofList (dotted path))
    ∧ (typeNotFound segments).code = .typeNotFound
    ∧ (∀ e, r.resolveType name = .error e ↔
      (∀ p ∈ pathsOf r.searchModules segments, ∀ e, ¬ LeadsTo r.world p e)
        ∧ e = .problem (typeNotFound segments))
    ∧ ∀ name' : String, HasSegments name'.toList segments →
      r.resolveType name' = r.resolveType name := by
  refine ⟨fun handle => ?_, code_typeNotFound segments, fun e => ?_, fun name' hname' => ?_⟩
  · rw [resolveType_eq_ok_iff h hname, findFirst_pathsOf_eq_some_iff h hmodules]
  · rw [resolveType_eq_error_iff h hmodules hname, findFirst_pathsOf_eq_none_iff h hmodules]
  · rw [resolveType, resolveType, normalName_of_hasSegments h hname,
      normalName_of_hasSegments h hname']

/-- Two modules, the second with a type of the name that the first has nothing under. -/
def twoModules : World :=
  ⟨[("cart", [("Size", .constant .null)]), ("shop.cart", [("Size", .type "Size" [] none)])]⟩

/-- What a front part of a name does not have is looked for under the next candidate, also where
separators are of several kinds. -/
theorem resolveType_of_hasSegments_size :
    isImportable "shop".toList = true ∧ AreSegments ["cart".toList, "Size".toList]
      ∧ HasSegments "\\cart\\Size.".toList ["cart".toList, "Size".toList]
      ∧ Resolver.resolveType { world := twoModules, searchModules := ["shop"] } "\\cart\\Size."
        = .ok ⟨"shop.cart.Size", .type "Size" [] none⟩ := by
  have hmodules : ∀ m ∈ ["shop"], isImportable m.toList = true := by decide
  have hsegments : AreSegments ["cart".toList, "Size".toList] := ⟨by simp, by decide⟩
  have hname : HasSegments "\\cart\\Size.".toList ["cart".toList, "Size".toList] :=
    ⟨['\\'], "cart\\Size".toList, ['.'], by decide,
      .cons "cart".toList (.inr rfl) (.single _), by simp [IsSeparator], by simp [IsSeparator]⟩
  refine ⟨by decide, hsegments, hname, ?_⟩
  have hnowhere : ∀ e, ¬ LeadsTo twoModules (splitAt '.' "cart.Size".toList) e :=
    (find_eq_none_iff (by decide)).mp rfl
  have hleads : LeadsTo twoModules (splitAt '.' "shop.cart.Size".toList) (.type "Size" [] none) :=
    (find_eq_some_iff (by decide)).mp rfl
  refine ((resolveType_of_hasSegments hsegments hmodules hname).1 _).mpr ?_
  exact ⟨[["cart".toList, "Size".toList]], ["shop".toList, "cart".toList, "Size".toList], [], rfl,
    List.forall_mem_singleton.mpr hnowhere, hleads, rfl⟩

end Resolver

end DocTags
