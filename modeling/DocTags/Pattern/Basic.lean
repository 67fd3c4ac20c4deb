/-!
# Patterns with named groups

A pattern reads a text from its front. Where it can go on in several ways it has an order of
preference, and the first way that leads to a complete match wins. Groups remember which stretch of
the text they read.
-/

namespace DocTags

/-- Whether a repetition goes on for as long as it can or stops as soon as it can. -/
inductive Greed where
  | greedy
  | lazy
  deriving DecidableEq, Repr

/-- Patterns over characters, with groups named by `κ`. -/
inductive Pattern (κ : Type) where
  /-- Reads nothing. -/
  | empty
  /-- Reads one accepted character. -/
  | char (accepts : Char → Bool)
  /-- Reads one pattern after the other. -/
  | seq (first second : Pattern κ)
  /-- Reads either pattern and prefers the first. -/
  | alt (first second : Pattern κ)
  /-- Reads the pattern any number of times. The body has to read something. -/
  | star (greed : Greed) (body : Pattern κ)
  /-- Remembers what the pattern reads. -/
  | group (name : κ) (body : Pattern κ)
  /-- Reads nothing, before a line feed or at the end of the text. -/
  | lineEnd
  /-- Reads nothing, at the end of the text or before its last character if that is a line feed. -/
  | textEnd

/-- The stretch of a text between two of its tails. -/
structure Span where
  start : List Char
  stop : List Char

namespace Span

/-- The characters before the second tail. -/
def text (s : Span) : List Char :=
  s.start.take (s.start.length - s.stop.length)

@[simp] theorem text_append (a b : List Char) : (Span.mk (a ++ b) b).text = a := by
  simp [text]

end Span

/-- What the groups have read, the latest first. -/
abbrev Captures (κ : Type) := List (κ × Span)

namespace Pattern

variable {κ α : Type}

/-- Repeats a reader at most once for every character of the first text, then goes on with `k`. -/
def repeatUpTo (greed : Greed)
    (body : List Char → Captures κ → (List Char → Captures κ → Option α) → Option α) :
    List Char → List Char → Captures κ → (List Char → Captures κ → Option α) → Option α
  | [], s, c, k => k s c
  | _ :: bound, s, c, k =>
    match greed with
    | .greedy =>
      match body s c fun s' c' => repeatUpTo greed body bound s' c' k with
      | some r => some r
      | none => k s c
    | .lazy =>
      match k s c with
      | some r => some r
      | none => body s c fun s' c' => repeatUpTo greed body bound s' c' k

/-- Reads the pattern from the front of `s` and hands the rest to `k`; the first way in the order of
preference that `k` accepts gives the result. -/
def run : Pattern κ → List Char → Captures κ → (List Char → Captures κ → Option α) → Option α
  | .empty, s, c, k => k s c
  | .char _, [], _, _ => none
  | .char p, a :: s, c, k => if p a then k s c else none
  | .seq p q, s, c, k => run p s c fun s' c' => run q s' c' k
  | .alt p q, s, c, k =>
    match run p s c k with
    | some r => some r
    | none => run q s c k
  | .star g p, s, c, k => repeatUpTo g (run p) s s c k
  | .group name p, s, c, k => run p s c fun s' c' => k s' ((name, ⟨s, s'⟩) :: c')
  | .lineEnd, [], c, k => k [] c
  | .lineEnd, a :: s, c, k => if a = '\n' then k (a :: s) c else none
  | .textEnd, [], c, k => k [] c
  | .textEnd, a :: s, c, k => if a = '\n' ∧ s = [] then k (a :: s) c else none

end Pattern

/-- A stretch of text that a pattern has read, with what its groups have read. -/
structure Match (κ : Type) where
  span : Span
  captures : Captures κ

namespace Match

variable {κ : Type} [DecidableEq κ]

/-- What the group read last, if it took part. -/
def group? (m : Match κ) (name : κ) : Option (List Char) :=
  (m.captures.find? (·.1 = name)).map (·.2.text)

/-- The text of a group, empty if it took no part. -/
def groupD (m : Match κ) (name : κ) : List Char :=
  (m.group? name).getD []

end Match

namespace Pattern

variable {κ : Type}

/-- The preferred match at the front of the text. -/
def matchFront? (p : Pattern κ) (s : List Char) : Option (Match κ) :=
  p.run s [] fun s' c => some ⟨⟨s, s'⟩, c⟩

/-- The preferred match that reads the whole text. -/
def matchWhole? (p : Pattern κ) (s : List Char) : Option (Match κ) :=
  p.run s [] fun s' c => if s'.isEmpty then some ⟨⟨s, s'⟩, c⟩ else none

/-- The preferred match at the first place that has one. -/
def search? (p : Pattern κ) : List Char → Option (Match κ)
  | [] => p.matchFront? []
  | a :: s =>
    match p.matchFront? (a :: s) with
    | some m => some m
    | none => p.search? s

/-- The matches found one after the other, each after the end of the one before. -/
def findAll (p : Pattern κ) (s : List Char) : List (Match κ) :=
  match p.search? s with
  | none => []
  | some m => if _ : m.span.stop.length < s.length then m :: p.findAll m.span.stop else [m]
termination_by s.length

/-- The stretches between the matches: the text cut at every match. -/
def split (p : Pattern κ) (s : List Char) : List (List Char) :=
  match p.search? s with
  | none => [s]
  | some m =>
    if _ : m.span.stop.length < s.length then
      (Span.mk s m.span.start).text :: p.split m.span.stop
    else [s]
termination_by s.length

/-- Writes `f m` in the place of every match `m`. -/
def replace (p : Pattern κ) (f : Match κ → List Char) (s : List Char) : List Char :=
  match p.search? s with
  | none => s
  | some m =>
    if _ : m.span.stop.length < s.length then
      (Span.mk s m.span.start).text ++ f m ++ p.replace f m.span.stop
    else s
termination_by s.length

/-- Reads the pattern at least once. -/
def plus (greed : Greed) (p : Pattern κ) : Pattern κ :=
  seq p (star greed p)

/-- Reads the pattern if it can. -/
def opt (p : Pattern κ) : Pattern κ :=
  alt p empty

/-- Reads the pattern at most `n` times, as often as it can. -/
def upTo : Nat → Pattern κ → Pattern κ
  | 0, _ => empty
  | n + 1, p => opt (seq p (upTo n p))

/-- Reads the given characters. -/
def lit : List Char → Pattern κ
  | [] => empty
  | a :: s => seq (char (· == a)) (lit s)

/-- Reads the patterns one after the other. -/
def chain : List (Pattern κ) → Pattern κ
  | [] => empty
  | [p] => p
  | p :: ps => seq p (chain ps)

/-- Reads one of the patterns and prefers those that stand first. -/
def oneOf : Pattern κ → List (Pattern κ) → Pattern κ
  | p, [] => p
  | p, q :: ps => alt p (oneOf q ps)

/-- Reads as many accepted characters as it can. -/
def chars (accepts : Char → Bool) : Pattern κ :=
  star .greedy (char accepts)

/-- Reads as many accepted characters as it can, at least one. -/
def chars1 (accepts : Char → Bool) : Pattern κ :=
  plus .greedy (char accepts)

end Pattern

end DocTags
