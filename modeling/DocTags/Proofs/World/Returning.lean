import DocTags.Proofs.Fallible
import DocTags.Proofs.Text.Table
import DocTags.World.Resolver

/-!
# Worlds whose functions return

In a world where no function and no construction of a type raises, whatever a name resolves to can
be called. A call fails only if the arguments do not fit, and what it gives can be drained.
-/

namespace DocTags

/-- Draining the value does not raise. -/
def Datum.Drains (d : Datum) : Prop :=
  ∀ rows t, d ≠ .stream rows (some t)

/-- No function in the entity and no construction of a type in it raises, neither in a call nor when
what the call gives is drained. -/
inductive Entity.Returns : Entity → Prop where
  | constant (value : Datum) : Returns (.constant value)
  | function {f : Function} (hcall : f.raises = none)
    (hresult : ∀ name, (Datum.withCaller name f.returns).Drains) : Returns (.function f)
  | type {name : String} {members : List (String × Entity)}
    (h : ∀ m ∈ members, Returns m.2) : Returns (.type name members none)
  | module {members : List (String × Entity)}
    (h : ∀ m ∈ members, Returns m.2) : Returns (.module members)

/-- Nothing in the world raises. -/
def World.Returns (w : World) : Prop :=
  ∀ m ∈ w.modules, ∀ entry ∈ m.2, entry.2.Returns

namespace Entity

variable {e m : Entity} {name : String} {names : List String}

theorem Returns.members (h : e.Returns) : ∀ entry ∈ e.members, entry.2.Returns := by
  cases h with
  | constant | function => simp [Entity.members]
  | type h | module h => exact h

theorem Returns.member (h : e.Returns) (hm : e.member? name = some m) : m.Returns := by
  have hlookup : e.members.lookup name = some m := by
    rw [member?] at hm
    split at hm
    · next d hd =>
        split at hm
        · cases hm
        · rw [hd, hm]
    · exact hm
  exact h.members _ (mem_of_lookup hlookup)

theorem Returns.walk (h : e.Returns) (hm : e.walk? names = some m) : m.Returns := by
  induction names generalizing e with
  | nil => exact Option.some.inj hm ▸ h
  | cons name names ih =>
      rw [walk?, Option.bind_eq_some_iff] at hm
      obtain ⟨next, hnext, hm⟩ := hm
      exact ih (h.member hnext) hm

end Entity

theorem World.Returns.module {w : World} (h : w.Returns) {name : String} {m : Entity}
    (hm : w.module? name = some m) : m.Returns := by
  rw [World.module?] at hm
  split at hm
  · next ms hms =>
      obtain rfl := Option.some.inj hm
      exact .module (h _ (mem_of_lookup hms))
  · split at hm
    · obtain rfl := Option.some.inj hm
      exact .module (by simp)
    · cases hm

namespace Resolver

variable {w : World} {r : Resolver} {found : Entity} {handle : TypeHandle}

end Resolver

end DocTags
