import DocTags.Proofs.DataSet.Merging
import DocTags.Proofs.World.Resolution
import DocTags.Query

/-!
# A separator in front of the declaring type

The declaring type of a symbol counts twice for its data: members without a type are looked for in
it, and other types are looked for in its module. A separator in front of it is dropped where the
type itself is looked for, but not where its module is. So the separator does not matter exactly as
long as every type is found before the module's turn comes.
-/

namespace DocTags

open Text

namespace Surroundings

/-- The name starts neither with a point nor with a backslash. -/
def StartsPlain (name : String) : Prop :=
  ∃ c rest, name.toList = c :: rest ∧ c ≠ '.' ∧ c ≠ '\\'

variable {name : String}

theorem StartsPlain.ne_empty (h : StartsPlain name) : name ≠ "" := by
  rintro rfl
  obtain ⟨c, rest, hname, -⟩ := h
  cases hname

theorem cutAtLast?_cons_self (sep : Char) (s : List Char) :
    cutAtLast? sep (sep :: s) = some (match cutAtLast? sep s with
      | some r => (sep :: r.1, r.2)
      | none => ([], s)) := by
  rw [cutAtLast?]
  cases cutAtLast? sep s <;> simp

/-- What stands in front of the last separator is not empty if another character comes first. -/
theorem fst_ne_nil_of_cutAtLast? {sep c : Char} {s : List Char} {r : List Char × List Char}
    (hc : c ≠ sep) (h : cutAtLast? sep (c :: s) = some r) : r.1 ≠ [] := by
  rw [cutAtLast?] at h
  split at h
  · obtain rfl := Option.some.inj h
    exact List.cons_ne_nil _ _
  · rw [if_neg hc] at h
    cases h

/-- A separator in front of a name becomes a point in front of its module. -/
theorem moduleOf_separator (h : StartsPlain name) :
    moduleOf ("\\" ++ name) = (moduleOf name).map ("." ++ ·) := by
  obtain ⟨c, rest, hname, hpoint, hslash⟩ := h
  have hfront : replaceChar '\\' '.' ("\\" ++ name).toList
      = '.' :: replaceChar '\\' '.' name.toList := by
    rw [String.toList_append]
    rfl
  have hplain : replaceChar '\\' '.' name.toList = c :: replaceChar '\\' '.' rest := by
    rw [hname, replaceChar, List.map_cons, if_neg hslash]
    rfl
  rw [moduleOf, moduleOf, hfront, cutAtLast?_cons_self]
  cases hcut : cutAtLast? '.' (replaceChar '\\' '.' name.toList) with
  | none => rfl
  | some r =>
      have hmodule : r.1 ≠ [] := fst_ne_nil_of_cutAtLast? hpoint (hplain ▸ hcut)
      simp [hmodule, String.ofList_cons]

end Surroundings

namespace Resolver

variable {w : World} {r r' : Resolver} {name name' : String} {path : List Char}
  {before : List (List Char)}

/-- A separator in front of a name does not count where the name is looked for. -/
theorem normalName_separator (name : List Char) : normalName ('\\' :: name) = normalName name := by
  rw [normalName, normalName, replaceChar, List.map_cons, if_pos rfl, trimWhere,
    List.dropWhile_cons_of_pos rfl]
  rfl

/-- The paths under which a name is looked for before it is looked for in the last search
module. -/
def earlierPaths (modules : List String) (name : List Char) : List (List Char) :=
  let relative := modules.map fun m => m.toList ++ '.' :: name
  if name.contains '.' then name :: relative else relative

/-- The candidates for a name, where a module is the last to be searched. -/
theorem candidates_append_singleton (modules : List String) (name : List Char) :
    ∃ after, ∀ m, candidates (modules ++ [m]) name
      = earlierPaths modules name ++ (m.toList ++ '.' :: name) :: after := by
  refine ⟨if name.contains '.' then [] else [name], fun m => ?_⟩
  rw [candidates, earlierPaths]
  split <;> simp

/-- Behind a candidate that leads somewhere, or cannot be looked up, the others do not count. -/
theorem findFirst_append_of_exists (h : ∃ p ∈ before, find w p ≠ .ok none)
    (rest : List (List Char)) : findFirst w (before ++ rest) = findFirst w before := by
  induction before with
  | nil => simp at h
  | cons p before ih =>
      rw [List.cons_append, findFirst, findFirst]
      cases hp : find w p with
      | error e => rfl
      | ok found =>
          cases found with
          | some e => rfl
          | none =>
              refine ih ?_
              obtain ⟨q, hq, hfind⟩ := h
              rcases List.mem_cons.mp hq with rfl | hq
              · exact absurd hp hfind
              · exact ⟨q, hq, hfind⟩

theorem resolveType_congr (hname : normalName name.toList = normalName name'.toList)
    (hfirst : findFirst r.world (candidates r.searchModules (normalName name.toList))
      = findFirst r'.world (candidates r'.searchModules (normalName name'.toList))) :
    r.resolveType name = r'.resolveType name' := by
  rw [resolveType, resolveType, hfirst, hname]

end Resolver

/-- The symbol with the given name of its declaring type. -/
def Symbol.declaredBy (s : Symbol) (type : String) : Symbol :=
  { s with declaringType := .text type }

@[simp] theorem Symbol.docComment_declaredBy (s : Symbol) (type : String) :
    (s.declaredBy type).docComment = s.docComment := rfl

namespace Surroundings

open Resolver

variable {e : Surroundings} {s : Symbol} {type name name' : String} {reference : List Char}

/-- The data of a symbol, or why there are none. -/
def provided (e : Surroundings) (s : Symbol) : Except Failure (Option (List DataSet)) :=
  ((e.resolver s).mapError .fault).bind fun r => (ProvidedData.ofSymbol r s).result

/-- The question about the data of a symbol shows them as they are reported. -/
theorem ask_data_result (e : Surroundings) (s : Symbol) : (e.ask s .data).result
    = (e.provided s).bind fun
      | none => .ok .null
      | some sets => DataSet.report e.limits.reported sets := by
  rw [ask, provided, Run.bind_result, Run.ofExcept_result]
  cases e.resolver s with
  | error fault => rfl
  | ok r =>
      simp only [mapError_ok, Except.bind, Run.bind_result]
      cases (ProvidedData.ofSymbol r s).result with
      | error failure => rfl
      | ok sets? => cases sets? <;> rfl

/-- The resolver for a symbol whose declaring type has the given name. -/
def resolverOf (e : Surroundings) (type : String) : Resolver where
  world := e.world
  searchModules := e.extraction.defaultModule.toList ++ moduleOf type
  instantiates := e.extraction.instantiateProviders
  rowDepth := e.limits.decoded

theorem resolver_declaredBy (s : Symbol) (h : type ≠ "") :
    e.resolver (s.declaredBy type) = .ok (e.resolverOf type) := by
  have htruthy : (Datum.text type).isTruthy = true := by simpa [Datum.isTruthy] using h
  rw [resolver, moduleOfType, Symbol.declaredBy, if_pos htruthy]
  rfl

theorem provided_declaredBy (s : Symbol) (h : type ≠ "") : e.provided (s.declaredBy type)
    = (ProvidedData.ofSymbol (e.resolverOf type) (s.declaredBy type)).result := by
  rw [provided, resolver_declaredBy s h]
  rfl

/-- A type is looked for in the module of the declaring type: it has one, and all earlier paths lead
nowhere. -/
def SearchesModule (e : Surroundings) (type name : String) : Prop :=
  moduleOf type ≠ []
    ∧ ∀ path ∈ earlierPaths e.extraction.defaultModule.toList (normalName name.toList),
      find e.world path = .ok none

/-- A declaring type has one module or none. -/
theorem moduleOf_cases (type : String) : moduleOf type = [] ∨ ∃ m, moduleOf type = [m] := by
  rw [moduleOf]
  split
  · split
    · exact .inl rfl
    · exact .inr ⟨_, rfl⟩
  · exact .inl rfl

/-- Where a type is looked for in the module of the declaring type, a separator in front of that
one ends the search: the module starts with a point. -/
theorem resolveType_separator_of_searches (h : StartsPlain type)
    (hsearches : e.SearchesModule type name)
    (hname : normalName name'.toList = normalName name.toList) :
    (e.resolverOf ("\\" ++ type)).resolveType name' = .error (.fault .relativeModuleName) := by
  obtain ⟨hmodule, hearlier⟩ := hsearches
  obtain ⟨m, hm⟩ := (moduleOf_cases type).resolve_left hmodule
  obtain ⟨after, hafter⟩ := candidates_append_singleton e.extraction.defaultModule.toList
    (normalName name.toList)
  have hmodules : (e.resolverOf ("\\" ++ type)).searchModules
      = e.extraction.defaultModule.toList ++ ["." ++ m] := by
    rw [resolverOf, moduleOf_separator h, hm]
    rfl
  have hbreaks : (e.resolverOf ("\\" ++ type)).BreaksAt name'
      (("." ++ m).toList ++ '.' :: normalName name.toList) := by
    refine ⟨_, after, ?_, hearlier, ?_⟩
    · rw [hmodules, hname, hafter]
    · rw [isImportable_append, String.toList_append]
      rfl
  rw [resolveType_of_breaksAt hbreaks, String.toList_append]
  rfl

/-- Any other type is found, or not, as without the separator. -/
theorem resolveType_separator_of_not_searches (h : StartsPlain type)
    (hsearches : ¬ e.SearchesModule type name)
    (hname : normalName name'.toList = normalName name.toList) :
    (e.resolverOf ("\\" ++ type)).resolveType name' = (e.resolverOf type).resolveType name := by
  apply resolveType_congr hname
  rw [hname]
  rcases moduleOf_cases type with hm | ⟨m, hm⟩
  · rw [resolverOf, resolverOf, moduleOf_separator h, hm]
    rfl
  · have hexists : ∃ p ∈ earlierPaths e.extraction.defaultModule.toList (normalName name.toList),
        find e.world p ≠ .ok none := by
      by_contra hnone
      push Not at hnone
      exact hsearches ⟨by simp [hm], hnone⟩
    obtain ⟨after, hafter⟩ := candidates_append_singleton e.extraction.defaultModule.toList
      (normalName name.toList)
    rw [resolverOf, resolverOf, moduleOf_separator h, hm, List.map_singleton]
    dsimp only
    rw [hafter, hafter, findFirst_append_of_exists hexists, findFirst_append_of_exists hexists]

end Surroundings

namespace ProvidedData

variable {r r' : Resolver} {name name' : String}

/-- A reference names a type, or the given one counts. -/
theorem splitReference_cases (reference : List Char) : ∃ member,
    (∀ d, splitReference reference d = (d, member))
      ∨ ∃ name, ∀ d, splitReference reference d = (.text name, member) := by
  obtain ⟨⟨type, member⟩, hnamed⟩ : ∃ named : List Char × List Char, ∀ d,
      splitReference reference d = if named.1.isEmpty then (d, String.ofList named.2) else
        (.text (String.ofList (join ['\\'] ((splitAt '\\' reference).dropLast ++ [named.1]))),
          String.ofList named.2) := ⟨_, fun d => rfl⟩
  refine ⟨String.ofList member, ?_⟩
  cases type with
  | nil => exact .inl hnamed
  | cons c rest => exact .inr ⟨_, hnamed⟩

theorem resolve_text (r : Resolver) (shown name member : String) :
    resolve r shown (.text name) member = (do
      let owner ← r.resolveType name
      let found ← Resolver.resolveMember owner member
      if !found.isStatic then
        let _ ← r.instantiate owner
      return found) := rfl

/-- Types that resolve alike have the same members. -/
theorem resolve_congr (htype : r.resolveType name = r'.resolveType name')
    (hinstantiates : r.instantiates = r'.instantiates) (shown member : String) :
    resolve r shown (.text name) member = resolve r' shown (.text name') member := by
  have hinstantiate : r.instantiate = r'.instantiate := by
    funext owner
    rw [Resolver.instantiate, Resolver.instantiate, hinstantiates]
  rw [resolve_text, resolve_text, htype, hinstantiate]

theorem resolve_of_fault {f : Fault} (h : r.resolveType name = .error (.fault f))
    (shown member : String) : resolve r shown (.text name) member = .error (.fault f) := by
  rw [resolve_text, h]
  rfl

theorem addProvider_result_eq_bind (r : Resolver) (s : Symbol) (c : Collection)
    (reference : List Char) : (addProvider r s c reference).result
      = (fetch r s reference).bind (c.extend (String.ofList reference)) := by
  rw [addProvider_result, Collection.extend_eq_foldlM_take]

end ProvidedData

namespace Surroundings

open Resolver ProvidedData

variable {e : Surroundings} {type : String} {reference : List Char} {refs : List (List Char)}

/-- The type of a reference is looked for in the module of the declaring type. -/
def ReachesModule (e : Surroundings) (type : String) (reference : List Char) : Prop :=
  ∃ name, (splitReference reference (.text type)).1 = .text name ∧ e.SearchesModule type name

theorem normalName_separator_toList (type : String) :
    normalName ("\\" ++ type).toList = normalName type.toList := by
  rw [String.toList_append]
  exact normalName_separator type.toList

/-- The types that a reference names to a symbol, without and with the separator. -/
theorem exists_splitReference (type : String) (reference : List Char) : ∃ name name' member,
    splitReference reference (.text type) = (.text name, member)
      ∧ splitReference reference (.text ("\\" ++ type)) = (.text name', member)
      ∧ normalName name'.toList = normalName name.toList := by
  obtain ⟨member, hsplit | ⟨name, hsplit⟩⟩ := splitReference_cases reference
  · exact ⟨_, _, member, hsplit _, hsplit _, normalName_separator_toList type⟩
  · exact ⟨name, name, member, hsplit _, hsplit _, rfl⟩

/-- With the separator a reference that reaches the module ends in a fault. -/
theorem fetch_separator_of_reaches (s : Symbol) (h : StartsPlain type)
    (hreaches : e.ReachesModule type reference) :
    fetch (e.resolverOf ("\\" ++ type)) (s.declaredBy ("\\" ++ type)) reference
      = .error (.fault .relativeModuleName) := by
  obtain ⟨name, name', member, hsplit, hsplit', hname⟩ := exists_splitReference type reference
  obtain ⟨n, hn, hsearches⟩ := hreaches
  obtain rfl : name = n := Datum.text.inj (by rw [← hn, hsplit])
  have hresolve := resolve_of_fault (resolveType_separator_of_searches h hsearches hname)
    (String.ofList reference) member
  rw [fetch, Symbol.declaredBy, hsplit']
  simp only [hresolve]
  rfl

/-- Any other reference leads to what it leads to without the separator. -/
theorem fetch_separator_of_not_reaches (s : Symbol) (h : StartsPlain type)
    (hreaches : ¬ e.ReachesModule type reference) :
    fetch (e.resolverOf ("\\" ++ type)) (s.declaredBy ("\\" ++ type)) reference
      = fetch (e.resolverOf type) (s.declaredBy type) reference := by
  obtain ⟨name, name', member, hsplit, hsplit', hname⟩ := exists_splitReference type reference
  have hsearches : ¬ e.SearchesModule type name :=
    fun hsearches => hreaches ⟨name, by rw [hsplit], hsearches⟩
  have hresolve := resolve_congr (resolveType_separator_of_not_searches h hsearches hname) rfl
    (String.ofList reference) member
  rw [fetch, fetch, Symbol.declaredBy, Symbol.declaredBy, hsplit, hsplit']
  simp only [hresolve]

theorem addProviders_separator_of_not_reaches (s : Symbol) (h : StartsPlain type)
    (hrefs : ∀ reference ∈ refs, ¬ e.ReachesModule type reference) (c : Collection) :
    (addProviders (e.resolverOf ("\\" ++ type)) (s.declaredBy ("\\" ++ type)) c refs).result
      = (addProviders (e.resolverOf type) (s.declaredBy type) c refs).result := by
  induction refs generalizing c with
  | nil => rfl
  | cons reference refs ih =>
      rw [List.forall_mem_cons] at hrefs
      simp only [addProviders, Run.bind_result, addProvider_result_eq_bind,
        fetch_separator_of_not_reaches s h hrefs.1, ih hrefs.2]

/-- Where all providers give their rows without the separator, the first reference that reaches the
module ends them with it. -/
theorem addProviders_separator_of_reaches (s : Symbol) (h : StartsPlain type)
    (hrefs : ∃ reference ∈ refs, e.ReachesModule type reference) {c c' : Collection}
    (hok : (addProviders (e.resolverOf type) (s.declaredBy type) c refs).result = .ok c') :
    (addProviders (e.resolverOf ("\\" ++ type)) (s.declaredBy ("\\" ++ type)) c refs).result
      = .error (.fault .relativeModuleName) := by
  induction refs generalizing c with
  | nil => simp at hrefs
  | cons reference refs ih =>
      rw [addProviders, Run.bind_result, addProvider_result_eq_bind] at hok ⊢
      by_cases hreaches : e.ReachesModule type reference
      · rw [fetch_separator_of_reaches s h hreaches]
        rfl
      · rw [fetch_separator_of_not_reaches s h hreaches]
        obtain ⟨d, hd, hok⟩ := exists_of_bind_eq_ok hok
        rw [hd]
        refine ih ?_ hok
        obtain ⟨other, hother, hother'⟩ := hrefs
        rcases List.mem_cons.mp hother with rfl | hother
        · exact absurd hother' hreaches
        · exact ⟨other, hother, hother'⟩

end Surroundings

/-- The failure that skips a test: its providers gave no rows. -/
def Failure.IsSkip : Failure → Prop
  | problem (.noRows _) => True
  | _ => False

namespace ProvidedData

variable {r r' : Resolver} {s s' : Symbol}

/-- The computation gives data, or finds that there are none, or skips the test. -/
def Delivers (x : Except Failure (Option (List DataSet))) : Prop :=
  FailsWithin Failure.IsSkip x

theorem extend_not_isSkip (c : Collection) (reference : String) (result : Datum) :
    FailsWithin (¬ ·.IsSkip) (c.extend reference result) := by
  refine (c.extend_stops reference result).mono fun e hstops hskip => ?_
  cases hstops <;> exact hskip

/-- No provider skips a test: that there are no rows is found when all of them have been asked. -/
theorem addProviders_not_isSkip (r : Resolver) (s : Symbol) (c : Collection)
    (refs : List (List Char)) :
    FailsWithin (¬ ·.IsSkip) (addProviders r s c refs).result := by
  rw [addProviders_result_eq_foldlM]
  refine FailsWithin.foldlM (fun c reference => ?_) refs c
  have hfetch : FailsWithin (¬ ·.IsSkip) (fetch r s reference) := by
    refine (ofReference_fetch r s reference).mono fun failure href hskip => ?_
    cases failure with
    | fault f => exact hskip
    | problem p => cases p <;> first | exact hskip | exact href
  rw [addProvider_result_eq_bind]
  exact hfetch.bind fun result _ => extend_not_isSkip c _ result

/-- Providers that deliver, or skip the test, have all given their rows. -/
theorem exists_addProviders_of_delivers (hrefs : references s.docComment.toList ≠ [])
    (h : Delivers (ofSymbol r s).result) :
    ∃ c, (addProviders r s {} (references s.docComment.toList)).result = .ok c := by
  rw [ofSymbol_result_of_references hrefs, ← addProviders_result] at h
  cases hrun : (addProviders r s {} (references s.docComment.toList)).result with
  | ok c => exact ⟨c, rfl⟩
  | error failure =>
      rw [hrun] at h
      exact absurd (h failure rfl) (addProviders_not_isSkip r s {} _ failure hrun)

/-- The data of a symbol depend on its comment and on what its providers give, or on how deep its
rows may be nested. -/
theorem ofSymbol_result_congr (hcomment : s.docComment = s'.docComment)
    (hdepth : r.rowDepth = r'.rowDepth)
    (h : (addProviders r s {} (references s.docComment.toList)).result
      = (addProviders r' s' {} (references s.docComment.toList)).result) :
    (ofSymbol r s).result = (ofSymbol r' s').result := by
  have hproviders : (ofProviders r s).result = (ofProviders r' s').result := by
    rw [ofProviders, ofProviders, ← hcomment]
    split
    · rfl
    · next hrefs =>
        rw [Run.bind_result, Run.bind_result, h]
  rw [ofSymbol, ofSymbol, Run.bind_result, Run.bind_result, hproviders, hcomment, hdepth]

end ProvidedData

namespace Surroundings

open Resolver ProvidedData

variable {e : Surroundings} {type : String}

theorem separator_append_ne_empty (h : StartsPlain type) : "\\" ++ type ≠ "" := by
  intro hempty
  exact h.ne_empty (String.append_eq_empty_iff.mp hempty).2

/-- With the separator a reference that reaches the module ends data that are delivered without it
in a fault. -/
theorem provided_separator_of_reaches (s : Symbol) (h : StartsPlain type)
    (hdelivers : Delivers (e.provided (s.declaredBy type)))
    (hexists : ∃ reference ∈ references s.docComment.toList, e.ReachesModule type reference) :
    e.provided (s.declaredBy ("\\" ++ type)) = .error (.fault .relativeModuleName) := by
  rw [provided_declaredBy s h.ne_empty] at hdelivers
  have hrefs : references s.docComment.toList ≠ [] := by
    obtain ⟨reference, hmem, -⟩ := hexists
    exact List.ne_nil_of_mem hmem
  obtain ⟨c, hc⟩ := exists_addProviders_of_delivers (s := s.declaredBy type) hrefs hdelivers
  rw [provided_declaredBy s (separator_append_ne_empty h),
    ofSymbol_result_of_references (s := s.declaredBy ("\\" ++ type)) hrefs,
    ← addProviders_result, Symbol.docComment_declaredBy,
    addProviders_separator_of_reaches s h hexists hc]
  rfl

/-- Data that are delivered stay the same with a separator in front of the declaring type, if and
only if no reference reaches its module. If one does, the separator ends in a fault. -/
theorem provided_separator (e : Surroundings) (s : Symbol) {type : String} (h : StartsPlain type)
    (hdelivers : Delivers (e.provided (s.declaredBy type))) :
    (e.provided (s.declaredBy ("\\" ++ type)) = e.provided (s.declaredBy type)
        ↔ ∀ reference ∈ references s.docComment.toList, ¬ e.ReachesModule type reference)
    ∧ ((∃ reference ∈ references s.docComment.toList, e.ReachesModule type reference) →
        e.provided (s.declaredBy ("\\" ++ type)) = .error (.fault .relativeModuleName)) := by
  refine ⟨⟨fun hsame => ?_, fun hnone => ?_⟩, provided_separator_of_reaches s h hdelivers⟩
  · by_contra hexists
    push Not at hexists
    have hfault := provided_separator_of_reaches s h hdelivers hexists
    exact hdelivers _ (hsame.symm.trans hfault)
  · rw [provided_declaredBy s (separator_append_ne_empty h), provided_declaredBy s h.ne_empty]
    exact ofSymbol_result_congr rfl rfl (addProviders_separator_of_not_reaches s h hnone {})

/-- A module with a type whose function gives two rows. -/
def cartSurroundings : Surroundings where
  world := ⟨[("shop.fixtures", [("CartData", .type "CartData"
    [("rows", .function ⟨.static, [], .list [.list [.int 1], .list [.int 2]], none⟩)] none)])]⟩

/-- A function whose rows come from that type. -/
def cartSymbol : Symbol :=
  ⟨"/**\n * @dataProvider CartData::rows\n */", "", 20, 25, .null, .text "test_total", [], false,
    none⟩

theorem references_cartSymbol :
    references cartSymbol.docComment.toList = ["CartData::rows".toList] := by
  decide +kernel

theorem startsPlain_cartTest : StartsPlain "shop.fixtures.CartTest" :=
  ⟨'s', "hop.fixtures.CartTest".toList, by decide +kernel, by decide, by decide⟩

theorem provided_cartSymbol :
    cartSurroundings.provided (cartSymbol.declaredBy "shop.fixtures.CartTest")
      = .ok (some [⟨.index 0, .list [.int 1]⟩, ⟨.index 1, .list [.int 2]⟩]) := by
  have hrefs : references (cartSymbol.declaredBy "shop.fixtures.CartTest").docComment.toList
      ≠ [] := by simp [references_cartSymbol]
  rw [provided_declaredBy cartSymbol startsPlain_cartTest.ne_empty,
    ofSymbol_result_of_references hrefs, ← addProviders_result, Symbol.docComment_declaredBy,
    references_cartSymbol]
  rfl

theorem delivers_cartSymbol :
    Delivers (cartSurroundings.provided (cartSymbol.declaredBy "shop.fixtures.CartTest")) := by
  rw [provided_cartSymbol]
  exact .ok _ _

theorem exists_reachesModule_cartSymbol : ∃ reference ∈ references cartSymbol.docComment.toList,
    cartSurroundings.ReachesModule "shop.fixtures.CartTest" reference := by
  have hearlier : earlierPaths cartSurroundings.extraction.defaultModule.toList
      (normalName "CartData".toList) = [] := by decide +kernel
  refine ⟨"CartData::rows".toList, by simp [references_cartSymbol], "CartData", rfl, ?_⟩
  exact ⟨by decide +kernel, hearlier ▸ by simp⟩

/-- The type is found in the module of the test. With a separator in front of the test it is not. -/
theorem provided_separator_cart :
    StartsPlain "shop.fixtures.CartTest"
    ∧ Delivers (cartSurroundings.provided (cartSymbol.declaredBy "shop.fixtures.CartTest"))
    ∧ cartSurroundings.provided (cartSymbol.declaredBy ("\\" ++ "shop.fixtures.CartTest"))
      = .error (.fault .relativeModuleName) := by
  refine ⟨startsPlain_cartTest, delivers_cartSymbol, ?_⟩
  apply (provided_separator _ _ startsPlain_cartTest delivers_cartSymbol).2
  exact exists_reachesModule_cartSymbol

/-- Data that are delivered do not always stay the same with the separator. -/
theorem not_forall_provided_separator :
    ¬ ∀ (e : Surroundings) (s : Symbol) (type : String), StartsPlain type →
      Delivers (e.provided (s.declaredBy type)) →
      e.provided (s.declaredBy ("\\" ++ type)) = e.provided (s.declaredBy type) := by
  intro h
  have hsame := h _ _ _ startsPlain_cartTest delivers_cartSymbol
  rw [provided_separator_of_reaches _ startsPlain_cartTest delivers_cartSymbol
    exists_reachesModule_cartSymbol, provided_cartSymbol] at hsame
  cases hsame

end Surroundings

end DocTags
