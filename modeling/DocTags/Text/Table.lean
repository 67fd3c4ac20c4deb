/-!
# Tables in order of insertion

A table is a list of entries with different keys. A new key goes to the end; an old one keeps its
place and gets the new value.
-/

namespace DocTags

/-- Entries in the order in which their keys came first. -/
abbrev Table (κ ν : Type) := List (κ × ν)

namespace Table

variable {κ ν : Type} [DecidableEq κ]

/-- The value under a key. -/
def get? (t : Table κ ν) (key : κ) : Option ν :=
  (t.find? fun e => e.1 = key).map (·.2)

/-- Some entry has the key. -/
def hasKey (t : Table κ ν) (key : κ) : Bool :=
  t.any fun e => e.1 = key

/-- Changes the value under a key, or adds one made from nothing. -/
def alter (t : Table κ ν) (key : κ) (f : Option ν → ν) : Table κ ν :=
  match t with
  | [] => [(key, f none)]
  | e :: es => if e.1 = key then (key, f (some e.2)) :: es else e :: alter es key f

/-- Puts a value under a key. -/
def insert (t : Table κ ν) (key : κ) (value : ν) : Table κ ν :=
  t.alter key fun _ => value

/-- The keys in order. -/
def keys (t : Table κ ν) : List κ :=
  t.map (·.1)

@[simp] theorem get?_nil (key : κ) : get? ([] : Table κ ν) key = none := rfl

theorem get?_cons (e : κ × ν) (t : Table κ ν) (key : κ) :
    get? (e :: t) key = if e.1 = key then some e.2 else get? t key := by
  by_cases h : e.1 = key <;> simp [get?, h]

theorem get?_alter (t : Table κ ν) (key other : κ) (f : Option ν → ν) :
    (t.alter key f).get? other = if key = other then some (f (t.get? key)) else t.get? other := by
  induction t with
  | nil => by_cases h : key = other <;> simp [alter, get?_cons, h]
  | cons e es ih =>
    by_cases h : e.1 = key
    · by_cases h' : key = other <;> simp [alter, get?_cons, h, h']
    · by_cases h' : e.1 = other
      · have : key ≠ other := fun he => h (h'.trans he.symm)
        rw [alter, if_neg h]
        simp [get?_cons, h', this]
      · simp [alter, get?_cons, h, h', ih]

theorem get?_insert (t : Table κ ν) (key other : κ) (value : ν) :
    (t.insert key value).get? other = if key = other then some value else t.get? other := by
  simp [insert, get?_alter]

end Table

end DocTags
