import RuntimeRanges.Numeral

/-!
Releases: the points that version ranges are made of. A release has an epoch, numbers, and optional
pre-release, post-release, development and local parts; `Release.compare` is their order, in which trailing
zeros of the numbers do not count.
-/

namespace RuntimeRanges

inductive Stage
  | alpha
  | beta
  | candidate
  deriving DecidableEq, Repr

def Stage.chars : Stage → List Char
  | alpha => ['a']
  | beta => ['b']
  | candidate => ['r', 'c']

def Stage.rank : Stage → Nat
  | alpha => 0
  | beta => 1
  | candidate => 2

/-- A part of the local part of a release. -/
inductive LocalPart
  | text (cs : List Char)
  | number (n : Nat)
  deriving DecidableEq, Repr

/-- A release. -/
structure Release where
  epoch : Nat := 0
  numbers : List Nat
  pre : Option (Stage × Nat) := none
  post : Option Nat := none
  dev : Option Nat := none
  localParts : List LocalPart := []
  deriving DecidableEq, Repr

def LocalPart.chars : LocalPart → List Char
  | text cs => cs
  | number n => Numeral.digits n

/-- Compares parts of local parts: texts by their characters, numbers by value, texts before numbers. -/
def LocalPart.compare : LocalPart → LocalPart → Ordering
  | text s, text t => Ord.compare (s.map Char.toNat) (t.map Char.toNat)
  | text _, number _ => .lt
  | number _, text _ => .gt
  | number m, number n => Ord.compare m n

namespace Release

def ofNumbers (major minor patch : Nat) : Release where
  numbers := [major, minor, patch]

/-- The release that all ranges begin at. -/
def origin : Release :=
  ofNumbers 0 0 0

/-- Compares numbers place by place; a missing place counts as zero. -/
def compareNumbers : List Nat → List Nat → Ordering
  | [], [] => .eq
  | [], n :: ns => (Ord.compare 0 n).then (compareNumbers [] ns)
  | m :: ms, [] => (Ord.compare m 0).then (compareNumbers ms [])
  | m :: ms, n :: ns => (Ord.compare m n).then (compareNumbers ms ns)

/-- Compares local parts; a shorter one comes first where it agrees with the longer one. -/
def compareLocal : List LocalPart → List LocalPart → Ordering
  | [], [] => .eq
  | [], _ :: _ => .lt
  | _ :: _, [] => .gt
  | p :: ps, q :: qs => (p.compare q).then (compareLocal ps qs)

/-- The place of a release among those with the same numbers by its pre-release: a development release of
the numbers themselves comes first, then the pre-releases, then all others. -/
def preRank (r : Release) : Nat × Nat :=
  match r.pre with
  | some (stage, n) => (stage.rank + 1, n)
  | none => if r.post.isNone && r.dev.isSome then (0, 0) else (4, 0)

/-- The place of a release by its post-release: none comes first. -/
def postRank (r : Release) : Nat :=
  match r.post with
  | none => 0
  | some n => n + 1

/-- The place of a release by its development number: none comes last. -/
def devRank (r : Release) : Nat × Nat :=
  match r.dev with
  | none => (1, 0)
  | some n => (0, n)

def comparePair (a b : Nat × Nat) : Ordering :=
  (Ord.compare a.1 b.1).then (Ord.compare a.2 b.2)

/-- The order of releases. -/
def compare (r s : Release) : Ordering :=
  (Ord.compare r.epoch s.epoch).then <|
    (compareNumbers r.numbers s.numbers).then <|
      (comparePair r.preRank s.preRank).then <|
        (Ord.compare r.postRank s.postRank).then <|
          (comparePair r.devRank s.devRank).then <| compareLocal r.localParts s.localParts

def joined (separator : Char) : List (List Char) → List Char
  | [] => []
  | [cs] => cs
  | cs :: ds :: rest => cs ++ separator :: joined separator (ds :: rest)

/-- The characters of a release in normal form. -/
def chars (r : Release) : List Char :=
  (if r.epoch = 0 then [] else Numeral.digits r.epoch ++ ['!']) ++
    joined '.' (r.numbers.map Numeral.digits) ++
    (match r.pre with | none => [] | some (stage, n) => stage.chars ++ Numeral.digits n) ++
    (match r.post with | none => [] | some n => ".post".toList ++ Numeral.digits n) ++
    (match r.dev with | none => [] | some n => ".dev".toList ++ Numeral.digits n) ++
    (if r.localParts.isEmpty then [] else '+' :: joined '.' (r.localParts.map LocalPart.chars))

def text (r : Release) : String :=
  String.ofList r.chars

theorem compare_ofNumbers (a b c a' b' c' : Nat) :
    compare (ofNumbers a b c) (ofNumbers a' b' c') =
      (Ord.compare a a').then ((Ord.compare b b').then (Ord.compare c c')) := by
  simp [compare, ofNumbers, compareNumbers, preRank, postRank, devRank, comparePair, compareLocal]

end Release

end RuntimeRanges
