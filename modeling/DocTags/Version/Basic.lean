import DocTags.Decimal.Basic
import DocTags.Pattern.Basic

/-!
# Versions

A version has release numbers, perhaps an epoch before them, and perhaps a pre-release, a
post-release, a development and a local part after them. In order of precedence: a development
release of a pre-release, the pre-release, the development release and then the release itself, its
post-releases. Missing release numbers count as zero.
-/

namespace DocTags

/-- The stages before a release, in order. -/
inductive Stage where
  | alpha
  | beta
  | candidate
  deriving DecidableEq, Repr

/-- A segment of a local part. -/
inductive LocalSegment where
  | word (letters : List Char)
  | number (n : Nat)
  deriving DecidableEq, Repr

/-- A version. -/
structure Version where
  epoch : Nat
  release : List Nat
  pre : Option (Stage × Nat)
  post : Option Nat
  dev : Option Nat
  localPart : List LocalSegment
  deriving DecidableEq, Repr

namespace Version

open Text Pattern

/-- The version with the given release numbers and nothing else. -/
def ofRelease (release : List Nat) : Version :=
  ⟨0, release, none, none, none, []⟩

/-- Why a text is no version. -/
inductive Fault where
  | invalid
  | tooManyDigits (digits : Nat)
  deriving DecidableEq, Repr

/-- The parts of a written version. -/
inductive Part where
  | epoch
  | release
  | preLetter
  | preNumber
  | dashNumber
  | postLetter
  | postNumber
  | devLetter
  | devNumber
  | localPart
  deriving DecidableEq, Repr

/-- The lower-case form of an ASCII letter. -/
def lower (c : Char) : Char :=
  c.toLower

/-- Reads the letters in either case. -/
def word (s : List Char) : Pattern Part :=
  s.foldr (fun a p => seq (char fun c => lower c == a) p) empty

/-- Reads a separator if there is one. -/
def separator : Pattern Part :=
  opt (char fun c => c == '-' || c == '_' || c == '.')

/-- Reads ASCII digits. -/
def digits : Pattern Part :=
  chars1 Char.isDigit

/-- Reads ASCII letters and digits. -/
def alphanumerics : Pattern Part :=
  chars1 Char.isAlphanum

/-- A version with blanks around it. -/
def pattern : Pattern Part :=
  chain
    [chars isBlank, opt (word ['v']),
      opt (seq (group .epoch digits) (char (· == '!'))),
      group .release (seq digits (star .greedy (seq (char (· == '.')) digits))),
      opt (chain
        [separator,
          group .preLetter (oneOf (word "alpha".toList)
            (["a", "beta", "b", "preview", "pre", "c", "rc"].map fun w => word w.toList)),
          separator, opt (group .preNumber digits)]),
      opt (alt
        (seq (char (· == '-')) (group .dashNumber digits))
        (chain
          [separator,
            group .postLetter (oneOf (word "post".toList) [word "rev".toList, word "r".toList]),
            separator, opt (group .postNumber digits)])),
      opt (chain
        [separator, group .devLetter (word "dev".toList), separator,
          opt (group .devNumber digits)]),
      opt (seq (char (· == '+'))
        (group .localPart
          (seq alphanumerics
            (star .greedy
              (seq (char fun c => c == '-' || c == '_' || c == '.') alphanumerics))))),
      chars isBlank]

/-- The stage that a word stands for. -/
def stageOf : List Char → Stage
  | 'a' :: _ => .alpha
  | 'b' :: _ => .beta
  | _ => .candidate

/-- The number that ASCII digits stand for. -/
def readNat (s : List Char) : Except Fault Nat :=
  (Decimal.readDigits (s.map fun c => c.toNat - 48)).mapError fun _ => .tooManyDigits s.length

/-- The number after a letter, zero if it is not written. -/
def readNatD : Option (List Char) → Except Fault Nat
  | none => .ok 0
  | some s => readNat s

/-- A segment of a local part, in lower case. -/
def readSegment (s : List Char) : Except Fault LocalSegment :=
  if s.all Char.isDigit then (readNat s).map .number else .ok (.word (s.map lower))

/-- Cuts a text at every character that satisfies `p`. -/
def cutAt (p : Char → Bool) : List Char → List (List Char)
  | [] => [[]]
  | c :: s =>
    if p c then [] :: cutAt p s
    else
      match cutAt p s with
      | w :: ws => (c :: w) :: ws
      | [] => [[c]]

/-- The version that a match of the pattern stands for. -/
def ofMatch (m : Match Part) : Except Fault Version := do
  let epoch ← readNatD (m.group? .epoch)
  let release ← (cutAt (· == '.') (m.groupD .release)).mapM readNat
  let pre ← match m.group? .preLetter with
    | none => pure none
    | some w => do pure (some (stageOf (w.map lower), ← readNatD (m.group? .preNumber)))
  let post ← match m.group? .dashNumber, m.group? .postLetter with
    | some s, _ => do pure (some (← readNat s))
    | none, some _ => do pure (some (← readNatD (m.group? .postNumber)))
    | none, none => pure none
  let dev ← match m.group? .devLetter with
    | none => pure none
    | some _ => do pure (some (← readNatD (m.group? .devNumber)))
  let localPart ← match m.group? .localPart with
    | none => pure []
    | some s => (cutAt (fun c => c == '-' || c == '_' || c == '.') s).mapM readSegment
  return ⟨epoch, release, pre, post, dev, localPart⟩

/-- Reads a version. -/
def read (s : List Char) : Except Fault Version :=
  match pattern.matchWhole? s with
  | none => .error .invalid
  | some m => ofMatch m

/-- Compares rows of numbers, the missing ones counted as zero. -/
def comparePadded : List Nat → List Nat → Ordering
  | [], [] => .eq
  | a :: as, [] => (compare a 0).then (comparePadded as [])
  | [], b :: bs => (compare 0 b).then (comparePadded [] bs)
  | a :: as, b :: bs => (compare a b).then (comparePadded as bs)

/-- The place of the part before the release: a development release without any other part comes
first, a release without one last. -/
def preRank (v : Version) : Nat × Nat :=
  match v.pre, v.post, v.dev with
  | none, none, some _ => (0, 0)
  | none, _, _ => (4, 0)
  | some (.alpha, n), _, _ => (1, n)
  | some (.beta, n), _, _ => (2, n)
  | some (.candidate, n), _, _ => (3, n)

/-- The place of the part after the release. -/
def postRank (v : Version) : Nat :=
  match v.post with
  | none => 0
  | some n => n + 1

/-- The place of the development part: a version without one comes last. -/
def devRank (v : Version) : Nat × Nat :=
  match v.dev with
  | none => (1, 0)
  | some n => (0, n)

/-- Compares pairs by their first parts, then by their second parts. -/
def comparePairs (a b : Nat × Nat) : Ordering :=
  (compare a.1 b.1).then (compare a.2 b.2)

/-- Compares words letter by letter. -/
def compareWords : List Char → List Char → Ordering
  | [], [] => .eq
  | [], _ :: _ => .lt
  | _ :: _, [] => .gt
  | a :: as, b :: bs => (compare a.toNat b.toNat).then (compareWords as bs)

/-- Compares segments of local parts: words come before numbers. -/
def compareSegments : LocalSegment → LocalSegment → Ordering
  | .word s, .word t => compareWords s t
  | .word _, .number _ => .lt
  | .number _, .word _ => .gt
  | .number m, .number n => compare m n

/-- Compares local parts segment by segment; a missing segment comes first. -/
def compareLocal : List LocalSegment → List LocalSegment → Ordering
  | [], [] => .eq
  | [], _ :: _ => .lt
  | _ :: _, [] => .gt
  | a :: as, b :: bs => (compareSegments a b).then (compareLocal as bs)

/-- The order of versions. -/
def order (v w : Version) : Ordering :=
  (compare v.epoch w.epoch).then <|
  (comparePadded v.release w.release).then <|
  (comparePairs v.preRank w.preRank).then <|
  (compare v.postRank w.postRank).then <|
  (comparePairs v.devRank w.devRank).then <|
  compareLocal v.localPart w.localPart

/-- The letters of a stage. -/
def Stage.letters : Stage → List Char
  | .alpha => ['a']
  | .beta => ['b']
  | .candidate => ['r', 'c']

/-- The text of a local segment. -/
def segmentText : LocalSegment → List Char
  | .word s => s
  | .number n => Decimal.natText n

/-- The normal form of a version. -/
def render (v : Version) : List Char :=
  (if v.epoch = 0 then [] else Decimal.natText v.epoch ++ ['!'])
    ++ List.intercalate ['.'] (v.release.map Decimal.natText)
    ++ (match v.pre with
      | none => []
      | some (stage, n) => Stage.letters stage ++ Decimal.natText n)
    ++ (match v.post with
      | none => []
      | some n => ".post".toList ++ Decimal.natText n)
    ++ (match v.dev with
      | none => []
      | some n => ".dev".toList ++ Decimal.natText n)
    ++ (match v.localPart with
      | [] => []
      | segments => '+' :: List.intercalate ['.'] (segments.map segmentText))

end Version

end DocTags
