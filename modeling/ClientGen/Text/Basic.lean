/-!
# Text

Text is a list of characters, so every reader and writer of the library is a recursion on lists.
This module holds searching, cutting and replacing; all of them scan from the left.
-/

namespace ClientGen

/-- A text, as the list of its characters. -/
abbrev Text := List Char

instance : Coe String Text := ⟨String.toList⟩

namespace Text

/-- A text is compared with each of the others. -/
instance decidableMem (t : Text) (ts : List Text) : Decidable (t ∈ ts) :=
  List.instDecidableMemOfLawfulBEq t ts

/-- The rest of a text after a given beginning. -/
def afterStart? : Text → Text → Option Text
  | [], t => some t
  | _ :: _, [] => none
  | p :: ps, c :: cs => if p = c then afterStart? ps cs else none

/-- Whether `t` begins with `p`. -/
def startsWith (p t : Text) : Bool := (afterStart? p t).isSome

/-- The part of a text before a given ending. -/
def beforeEnd? (s t : Text) : Option Text :=
  (afterStart? s.reverse t.reverse).map List.reverse

/-- Whether `t` ends with `s`. -/
def endsWith (s t : Text) : Bool := (beforeEnd? s t).isSome

theorem afterStart?_eq_some_iff {p t r : Text} : afterStart? p t = some r ↔ t = p ++ r := by
  induction p generalizing t with
  | nil => simp [afterStart?, eq_comm]
  | cons a p ih =>
    cases t with
    | nil => simp [afterStart?]
    | cons c t =>
      by_cases h : a = c
      · subst h; simp [afterStart?, ih]
      · simp only [afterStart?, h, if_false, List.cons_append, List.cons.injEq]
        constructor
        · intro h'; cases h'
        · intro h'; exact absurd h'.1.symm h

/-- The parts of a text around the first occurrence of `p`. -/
def cut? (p : Text) : Text → Option (Text × Text)
  | [] => if p = [] then some ([], []) else none
  | c :: cs =>
    match afterStart? p (c :: cs) with
    | some rest => some ([], rest)
    | none => (cut? p cs).map fun (before, rest) => (c :: before, rest)

theorem cut?_eq_some {p t b r : Text} (h : cut? p t = some (b, r)) : t = b ++ p ++ r := by
  induction t generalizing b with
  | nil =>
    simp only [cut?] at h
    split at h
    · next hp => simp_all
    · cases h
  | cons c cs ih =>
    simp only [cut?] at h
    split at h
    · next rest hr =>
      simp only [Option.some.injEq, Prod.mk.injEq] at h
      obtain ⟨rfl, rfl⟩ := h
      simpa using afterStart?_eq_some_iff.1 hr
    · obtain ⟨⟨b', r'⟩, hb, he⟩ := Option.map_eq_some_iff.1 h
      simp only [Prod.mk.injEq] at he
      obtain ⟨rfl, rfl⟩ := he
      simp [ih hb]

/-- Walks through a text. Where `step` answers with a text and a number of characters, the text takes
the place of these characters; all other characters stay. -/
def substitute (step : Text → Option (Text × Nat)) (t : Text) : Text :=
  go 0 t
where
  /-- Passes over `skip` characters whose place is already taken. -/
  go (skip : Nat) : Text → Text
    | [] => []
    | c :: cs =>
      match skip with
      | k + 1 => go k cs
      | 0 =>
        match step (c :: cs) with
        | some (out, n) => out ++ go (n - 1) cs
        | none => c :: go 0 cs

@[simp] theorem substitute_nil (step : Text → Option (Text × Nat)) : substitute step [] = [] := rfl

theorem substitute_cons_of_none {step : Text → Option (Text × Nat)} {c : Char} {cs : Text}
    (h : step (c :: cs) = none) : substitute step (c :: cs) = c :: substitute step cs := by
  simp [substitute, substitute.go, h]

private theorem substitute_go_append (step : Text → Option (Text × Nat)) (a b : Text) :
    substitute.go step a.length (a ++ b) = substitute.go step 0 b := by
  induction a with
  | nil => rfl
  | cons c a ih => simpa [substitute.go] using ih

theorem substitute_append_of_some {step : Text → Option (Text × Nat)} {a b out : Text} (ha : a ≠ [])
    (h : step (a ++ b) = some (out, a.length)) : substitute step (a ++ b) = out ++ substitute step b := by
  cases a with
  | nil => exact absurd rfl ha
  | cons c a =>
    simp only [List.cons_append, List.length_cons] at h
    simp [substitute, substitute.go, h, substitute_go_append]

/-- Walks through a text and lists what `step` finds. It is given the character before the place, the
line feed at the beginning, and answers with a finding and the number of characters to pass over. -/
def collect {α : Type} (step : (before : Char) → Text → Option (α × Nat)) (t : Text) : List α :=
  go 0 '\n' t
where
  /-- Passes over `skip` characters that belong to a finding. -/
  go (skip : Nat) (before : Char) : Text → List α
    | [] => []
    | c :: cs =>
      match skip with
      | k + 1 => go k c cs
      | 0 =>
        match step before (c :: cs) with
        | some (found, n) => found :: go (n - 1) c cs
        | none => go 0 c cs

/-- Every occurrence of `p` exchanged for `q`, from left to right; `p` is not empty. -/
def replace (p q : Text) : Text → Text :=
  substitute fun t => if startsWith p t then some (q, p.length) else none

/-- The pieces of a text between the characters that satisfy `sep`. -/
def splitBy (sep : Char → Bool) : Text → List Text
  | [] => [[]]
  | c :: cs =>
    if sep c then [] :: splitBy sep cs
    else
      match splitBy sep cs with
      | [] => [[c]]
      | piece :: pieces => (c :: piece) :: pieces

/-- The pieces of a text between the occurrences of `c`. -/
def splitOn (c : Char) (t : Text) : List Text := splitBy (· == c) t

/-- The pieces joined with `sep` between neighbours. -/
def join (sep : Text) (pieces : List Text) : Text := sep.intercalate pieces

/-- The text without the characters at its end that satisfy `p`. -/
def dropEndWhile (p : Char → Bool) (t : Text) : Text := (t.reverse.dropWhile p).reverse

/-- The text without the line feed at its end, if it ends in one. -/
def withoutLineEnd (t : Text) : Text := (beforeEnd? ['\n'] t).getD t

/-- Whether `p` occurs in `t`. -/
def occurs (p t : Text) : Bool := (cut? p t).isSome

/-- The order of texts by code point, a beginning before its continuations. -/
def le : Text → Text → Bool
  | [], _ => true
  | _ :: _, [] => false
  | a :: as, b :: bs => if a.val < b.val then true else if b.val < a.val then false else le as bs

/-- The texts in order of code points. -/
def sort (ts : List Text) : List Text := ts.mergeSort le

def ofNat (n : Nat) : Text := Nat.toDigits 10 n

/-- The decimal digits of a number, after a minus sign when it is negative. -/
def ofInt : Int → Text
  | .ofNat n => ofNat n
  | .negSucc n => '-' :: ofNat (n + 1)

/-- The digits of `n` in base `base`, padded with zeros to `width`. -/
def padded (base width n : Nat) : Text :=
  let digits := Nat.toDigits base n
  List.replicate (width - digits.length) '0' ++ digits

end Text

/-- The elements in order of their first occurrence, without repetition. -/
def firstOccurrences {α : Type} [DecidableEq α] : List α → List α
  | [] => []
  | a :: as => a :: (firstOccurrences as).filter (· ≠ a)

end ClientGen
