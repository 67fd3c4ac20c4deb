/-!
# Results under a condition

A computation that may fail gives a result exactly under a condition, and fails with an expected
kind of fault otherwise. The conditions of computations after one another add up.
-/

namespace DocTags

variable {ε ε' α β : Type} {E : ε → Prop} {E' : ε' → Prop} {x : Except ε α} {P Q : Prop} {a : α}
  {b : β}

@[simp] theorem mapError_ok (f : ε → ε') (a : α) :
    (Except.ok a : Except ε α).mapError f = .ok a := rfl

@[simp] theorem mapError_error (f : ε → ε') (e : ε) :
    (Except.error e : Except ε α).mapError f = .error (f e) := rfl

theorem error_ne_ok {e : ε} {a : α} : (Except.error e : Except ε α) ≠ .ok a := by
  intro h
  cases h

instance decidableExistsEqOk {R : α → Prop} [∀ a, Decidable (R a)] (x : Except ε α) :
    Decidable (∃ a, x = .ok a ∧ R a) :=
  match x with
  | .ok a => decidable_of_iff (R a) ⟨fun h => ⟨a, rfl, h⟩, fun ⟨_, ha, h⟩ => Except.ok.inj ha ▸ h⟩
  | .error _ => .isFalse fun ⟨_, ha, _⟩ => nomatch ha

/-- The computation gives `a` if `P` holds and otherwise fails with a fault that satisfies `E`. -/
def GivesIff (E : ε → Prop) (x : Except ε α) (P : Prop) (a : α) : Prop :=
  (P → x = .ok a) ∧ (¬ P → ∃ e, E e ∧ x = .error e)

namespace GivesIff

theorem ok (E : ε → Prop) (a : α) : GivesIff E (.ok a) True a :=
  ⟨fun _ => rfl, fun h => absurd trivial h⟩

theorem congr (h : GivesIff E x P a) (hPQ : P ↔ Q) : GivesIff E x Q a :=
  ⟨fun hq => h.1 (hPQ.mpr hq), fun hq => h.2 fun hp => hq (hPQ.mp hp)⟩

/-- There is a result with a property exactly if the condition holds and the result has it. -/
theorem exists_ok_iff (h : GivesIff E x P a) {R : α → Prop} :
    (∃ b, x = .ok b ∧ R b) ↔ P ∧ R a := by
  constructor
  · rintro ⟨b, hb, hr⟩
    by_cases hp : P
    · obtain rfl := Except.ok.inj ((h.1 hp).symm.trans hb)
      exact ⟨hp, hr⟩
    · obtain ⟨e, -, he⟩ := h.2 hp
      exact absurd (he.symm.trans hb) (by simp)
  · rintro ⟨hp, hr⟩
    exact ⟨a, h.1 hp, hr⟩

theorem map (h : GivesIff E x P a) (f : α → β) : GivesIff E (x.map f) P (f a) := by
  constructor
  · intro hp
    rw [h.1 hp]
    rfl
  · intro hp
    obtain ⟨e, he, hx⟩ := h.2 hp
    exact ⟨e, he, by rw [hx]; rfl⟩

theorem mapError (h : GivesIff E x P a) {f : ε → ε'} (hf : ∀ e, E e → E' (f e)) :
    GivesIff E' (x.mapError f) P a := by
  constructor
  · intro hp
    rw [h.1 hp]
    rfl
  · intro hp
    obtain ⟨e, he, hx⟩ := h.2 hp
    exact ⟨f e, hf e he, by rw [hx]; rfl⟩

theorem bind {f : α → Except ε β} (hx : GivesIff E x P a) (hf : P → GivesIff E (f a) Q b) :
    GivesIff E (x >>= f) (P ∧ Q) b := by
  constructor
  · rintro ⟨hp, hq⟩
    rw [hx.1 hp]
    exact (hf hp).1 hq
  · intro hn
    by_cases hp : P
    · obtain ⟨e, he, hfa⟩ := (hf hp).2 fun hq => hn ⟨hp, hq⟩
      exact ⟨e, he, by rw [hx.1 hp]; exact hfa⟩
    · obtain ⟨e, he, hxe⟩ := hx.2 hp
      exact ⟨e, he, by rw [hxe]; rfl⟩

/-- A second step whose condition contains that of the first step. -/
theorem bind_of_imp {f : α → Except ε β} (hx : GivesIff E x P a)
    (hf : P → GivesIff E (f a) Q b) (hQ : Q → P) : GivesIff E (x >>= f) Q b :=
  (hx.bind hf).congr ⟨fun h => h.2, fun h => ⟨hQ h, h⟩⟩

/-- Computations on all members of a list give results exactly if each of them does. -/
theorem mapM {f : α → Except ε β} {P : α → Prop} {g : α → β} {l : List α}
    (h : ∀ a ∈ l, GivesIff E (f a) (P a) (g a)) :
    GivesIff E (l.mapM f) (∀ a ∈ l, P a) (l.map g) := by
  induction l with
  | nil => exact (ok E []).congr (by simp)
  | cons a l ih =>
      rw [List.forall_mem_cons] at h
      rw [List.mapM_cons]
      have htail : GivesIff E (l.mapM f >>= fun bs => pure (g a :: bs)) (∀ a ∈ l, P a)
          (g a :: l.map g) :=
        ((ih h.2).bind fun _ => ok E (g a :: l.map g)).congr (by simp)
      exact (h.1.bind fun _ => htail).congr List.forall_mem_cons.symm

end GivesIff

theorem mapM_eq_ok {f : α → Except ε β} {g : α → β} {l : List α} (h : ∀ a ∈ l, f a = .ok (g a)) :
    l.mapM f = .ok (l.map g) :=
  (GivesIff.mapM (E := fun _ => False) fun a ha =>
    ⟨fun _ => h a ha, fun hn => absurd trivial hn⟩ : GivesIff _ _ (∀ a ∈ l, True) _).1
      fun _ _ => trivial

theorem exists_of_bind_eq_ok {f : α → Except ε β} (h : x >>= f = .ok b) :
    ∃ a, x = .ok a ∧ f a = .ok b := by
  cases x with
  | error e => cases h
  | ok a => exact ⟨a, rfl, h⟩

theorem exists_of_mapM_cons_eq_ok {f : α → Except ε β} {l : List α} {bs : List β}
    (h : (a :: l).mapM f = .ok bs) : ∃ b cs, f a = .ok b ∧ l.mapM f = .ok cs ∧ bs = b :: cs := by
  rw [List.mapM_cons] at h
  obtain ⟨b, hb, h⟩ := exists_of_bind_eq_ok h
  obtain ⟨cs, hcs, h⟩ := exists_of_bind_eq_ok h
  exact ⟨b, cs, hb, hcs, (Except.ok.inj h).symm⟩

/-- Where a list of computations gives results, each of them does. -/
theorem exists_of_mapM_eq_ok {f : α → Except ε β} {l : List α} {bs : List β}
    (h : l.mapM f = .ok bs) : ∀ a ∈ l, ∃ b, f a = .ok b := by
  induction l generalizing bs with
  | nil => simp
  | cons a l ih =>
      obtain ⟨b, cs, hb, hcs, -⟩ := exists_of_mapM_cons_eq_ok h
      exact List.forall_mem_cons.mpr ⟨⟨b, hb⟩, ih hcs⟩

theorem exists_bind_eq_ok_iff {f : α → Except ε β} :
    (∃ b, x >>= f = .ok b) ↔ ∃ a, x = .ok a ∧ ∃ b, f a = .ok b := by
  constructor
  · rintro ⟨b, hb⟩
    obtain ⟨a, ha, hfa⟩ := exists_of_bind_eq_ok hb
    exact ⟨a, ha, b, hfa⟩
  · rintro ⟨a, rfl, hfa⟩
    exact hfa

/-- Every result of a list of computations is the result of one of them. -/
theorem exists_mem_of_mapM_eq_ok {f : α → Except ε β} {l : List α} {bs : List β}
    (h : l.mapM f = .ok bs) : ∀ b ∈ bs, ∃ a ∈ l, f a = .ok b := by
  induction l generalizing bs with
  | nil =>
      obtain rfl := Except.ok.inj h
      simp
  | cons a l ih =>
      obtain ⟨b, cs, hb, hcs, rfl⟩ := exists_of_mapM_cons_eq_ok h
      refine List.forall_mem_cons.mpr ⟨⟨a, List.mem_cons_self, hb⟩, fun c hc => ?_⟩
      obtain ⟨a', ha', hc⟩ := ih hcs c hc
      exact ⟨a', List.mem_cons_of_mem a ha', hc⟩

theorem bind_eq_error_iff {f : α → Except ε β} {e : ε} :
    x >>= f = .error e ↔ x = .error e ∨ ∃ a, x = .ok a ∧ f a = .error e := by
  cases x with
  | error e' => simp [bind, Except.bind]
  | ok a => simp [bind, Except.bind]

/-- A list of computations fails with what the first of them fails with that does not give a
result. -/
theorem mapM_eq_error_iff {f : α → Except ε β} {l : List α} {e : ε} :
    l.mapM f = .error e ↔ ∃ before a after, l = before ++ a :: after
      ∧ (∀ b ∈ before, ∃ c, f b = .ok c) ∧ f a = .error e := by
  induction l with
  | nil =>
      refine iff_of_false (fun h => nomatch h) ?_
      rintro ⟨before, a, after, h, -⟩
      simp at h
  | cons a l ih =>
      have hrest (c : β) : (do let cs ← l.mapM f; pure (c :: cs)) = .error e
          ↔ l.mapM f = .error e := by
        rw [bind_eq_error_iff]
        exact or_iff_left fun ⟨_, _, h⟩ => nomatch h
      rw [List.mapM_cons, bind_eq_error_iff]
      simp only [hrest, ih]
      constructor
      · rintro (hfa | ⟨c, hfa, before, b, after, rfl, hbefore, hb⟩)
        · exact ⟨[], a, l, rfl, List.forall_mem_nil _, hfa⟩
        · exact ⟨a :: before, b, after, rfl, List.forall_mem_cons.mpr ⟨⟨c, hfa⟩, hbefore⟩, hb⟩
      · rintro ⟨before, b, after, hl, hbefore, hb⟩
        cases before with
        | nil =>
            obtain ⟨rfl, rfl⟩ := List.cons.inj hl
            exact .inl hb
        | cons a' before =>
            obtain ⟨rfl, rfl⟩ := List.cons.inj hl
            obtain ⟨⟨c, hc⟩, hbefore⟩ := List.forall_mem_cons.mp hbefore
            exact .inr ⟨c, hc, before, b, after, rfl, hbefore, hb⟩

theorem exists_of_map_eq_ok {f : α → β} (h : x.map f = .ok b) : ∃ a, x = .ok a ∧ f a = b := by
  cases x with
  | error e => cases h
  | ok a => exact ⟨a, rfl, Except.ok.inj h⟩

theorem eq_ok_of_mapError_eq_ok {f : ε → ε'} (h : x.mapError f = .ok a) : x = .ok a := by
  cases x with
  | error e => cases h
  | ok a => exact congrArg Except.ok (Except.ok.inj h)

theorem eq_ok_of_toOption_eq_some (h : x.toOption = some a) : x = .ok a := by
  cases x with
  | error e => cases h
  | ok a' => exact congrArg Except.ok (Option.some.inj h)

theorem map_congr_of_ok {f g : α → β} (h : ∀ a, x = .ok a → f a = g a) : x.map f = x.map g := by
  cases x with
  | error e => rfl
  | ok a => exact congrArg Except.ok (h a rfl)

theorem map_eq_self {f : α → α} (h : ∀ a, x = .ok a → f a = a) : x.map f = x := by
  cases x with
  | error e => rfl
  | ok a => exact congrArg Except.ok (h a rfl)

theorem exists_mapError_eq_ok_iff {f : ε → ε'} :
    (∃ a, x.mapError f = .ok a) ↔ ∃ a, x = .ok a :=
  exists_congr fun a => ⟨eq_ok_of_mapError_eq_ok, fun h => by rw [h, mapError_ok]⟩

theorem exists_map_eq_ok_iff {f : α → β} : (∃ b, x.map f = .ok b) ↔ ∃ a, x = .ok a := by
  constructor
  · rintro ⟨b, hb⟩
    obtain ⟨a, ha, -⟩ := exists_of_map_eq_ok hb
    exact ⟨a, ha⟩
  · rintro ⟨a, rfl⟩
    exact ⟨f a, rfl⟩

/-- The computation fails with nothing but what satisfies `E`. -/
def FailsWithin (E : ε → Prop) (x : Except ε α) : Prop :=
  ∀ e, x = .error e → E e

namespace FailsWithin

theorem ok (E : ε → Prop) (a : α) : FailsWithin E (.ok a) :=
  fun _ h => nomatch h

theorem error {e : ε} (he : E e) : FailsWithin E (.error e : Except ε α) := by
  rintro _ ⟨⟩
  exact he

theorem mono {E' : ε → Prop} (hx : FailsWithin E x) (h : ∀ e, E e → E' e) : FailsWithin E' x :=
  fun e he => h e (hx e he)

theorem mapError (hx : FailsWithin E x) {f : ε → ε'} (hf : ∀ e, E e → E' (f e)) :
    FailsWithin E' (x.mapError f) := by
  cases x with
  | error e => exact error (hf e (hx e rfl))
  | ok a => exact ok E' a

/-- All failures are turned into ones that satisfy `E'`. -/
theorem of_mapError {f : ε → ε'} (hf : ∀ e, E' (f e)) (x : Except ε α) :
    FailsWithin E' (x.mapError f) :=
  mapError (E := fun _ => True) (fun _ _ => trivial) fun e _ => hf e

theorem map (hx : FailsWithin E x) (f : α → β) : FailsWithin E (x.map f) := by
  cases x with
  | error e => exact error (hx e rfl)
  | ok a => exact ok E (f a)

theorem bind {f : α → Except ε β} (hx : FailsWithin E x)
    (hf : ∀ a, x = .ok a → FailsWithin E (f a)) : FailsWithin E (x >>= f) := by
  cases x with
  | error e => exact error (hx e rfl)
  | ok a => exact hf a rfl

theorem bind_iff {f : α → Except ε β} :
    FailsWithin E (x >>= f) ↔ FailsWithin E x ∧ ∀ a, x = .ok a → FailsWithin E (f a) := by
  constructor
  · intro h
    cases x with
    | error e => exact ⟨error (h e rfl), fun _ ha => nomatch ha⟩
    | ok a =>
        refine ⟨ok E a, fun b hb => ?_⟩
        obtain rfl := Except.ok.inj hb
        exact h
  · rintro ⟨hx, hf⟩
    exact hx.bind hf

/-- Computations on the members of a list fail with what one of them fails with. -/
theorem mapM {f : α → Except ε β} {l : List α} (h : ∀ a ∈ l, FailsWithin E (f a)) :
    FailsWithin E (l.mapM f) := by
  induction l with
  | nil => exact ok E []
  | cons a l ih =>
      rw [List.forall_mem_cons] at h
      rw [List.mapM_cons]
      exact h.1.bind fun b _ => (ih h.2).bind fun bs _ => ok E _

theorem foldlM {f : β → α → Except ε β} (h : ∀ b a, FailsWithin E (f b a)) (l : List α) (b : β) :
    FailsWithin E (l.foldlM f b) := by
  induction l generalizing b with
  | nil => exact ok E b
  | cons a l ih =>
      rw [List.foldlM_cons]
      exact (h b a).bind fun c _ => ih c

end FailsWithin

instance [DecidablePred E] (x : Except ε α) : Decidable (FailsWithin E x) :=
  match x with
  | .ok a => .isTrue (.ok E a)
  | .error e => decidable_of_iff (E e) ⟨.error, fun h => h e rfl⟩

/-- The computation gives nothing but what satisfies `P`. -/
def GivesWithin (P : α → Prop) (x : Except ε α) : Prop :=
  ∀ a, x = .ok a → P a

namespace GivesWithin

variable {R : α → Prop} {S : β → Prop}

theorem ok (h : R a) : GivesWithin R (.ok a : Except ε α) := by
  rintro _ ⟨⟩
  exact h

theorem error (R : α → Prop) (e : ε) : GivesWithin R (.error e) :=
  fun _ h => nomatch h

theorem any (x : Except ε α) : GivesWithin (fun _ => True) x :=
  fun _ _ => trivial

theorem mapError (hx : GivesWithin R x) (f : ε → ε') : GivesWithin R (x.mapError f) :=
  fun a ha => hx a (eq_ok_of_mapError_eq_ok ha)

theorem bind {f : α → Except ε β} (hx : GivesWithin R x)
    (hf : ∀ a, R a → GivesWithin S (f a)) : GivesWithin S (x >>= f) := by
  intro b hb
  obtain ⟨a, ha, hb⟩ := exists_of_bind_eq_ok hb
  exact hf a (hx a ha) b hb

theorem map {f : α → β} (hx : GivesWithin R x) (hf : ∀ a, R a → S (f a)) :
    GivesWithin S (x.map f) := by
  intro b hb
  obtain ⟨a, ha, rfl⟩ := exists_of_map_eq_ok hb
  exact hf a (hx a ha)

/-- What every step keeps, a run over a list keeps. -/
theorem foldlM {f : β → α → Except ε β} (hf : ∀ b a, S b → GivesWithin S (f b a)) (l : List α)
    {b : β} (hb : S b) : GivesWithin S (l.foldlM f b) := by
  induction l generalizing b with
  | nil => exact ok hb
  | cons a l ih =>
      rw [List.foldlM_cons]
      exact (hf b a hb).bind fun c hc => ih hc

end GivesWithin

end DocTags
