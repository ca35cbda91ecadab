import Mathlib.Data.List.Induction
import Mathlib.Data.List.TakeWhile

/-!
# String literals in the text of a statement

A literal stands between two quotes of one kind. In it a quote is written twice or after a
backslash; the other escapes are those of the control bytes, and `\%` and `\_` stay two bytes.
-/

namespace Cgsf.Library.SqlText

def quote : UInt8 := 39
def doubleQuote : UInt8 := 34
def backslash : UInt8 := 92
def percent : UInt8 := 37
def underscore : UInt8 := 95

inductive Token where
  | symbol (c : UInt8)
  | literal (value : List UInt8)
  deriving DecidableEq, Repr

/-- What a backslash before `c` stands for. -/
def unescape (c : UInt8) : List UInt8 :=
  if c = percent ∨ c = underscore then [backslash, c]
  else if c = 48 then [0]
  else if c = 98 then [8]
  else if c = 116 then [9]
  else if c = 110 then [10]
  else if c = 114 then [13]
  else if c = 90 then [26]
  else [c]

/-- The value of a literal that has been opened with `q`, and what follows it. -/
def scan (q : UInt8) : List UInt8 → Option (List UInt8 × List UInt8)
  | [] => none
  | [c] => if c = q then some ([], []) else none
  | c :: d :: rest =>
      if c = backslash then (scan q rest).map fun (value, rest) => (unescape d ++ value, rest)
      else if c = q then
        if d = q then (scan q rest).map fun (value, rest) => (q :: value, rest)
        else some ([], d :: rest)
      else (scan q (d :: rest)).map fun (value, rest) => (c :: value, rest)

def IsQuote (c : UInt8) : Prop := c = quote ∨ c = doubleQuote

instance (c : UInt8) : Decidable (IsQuote c) := inferInstanceAs (Decidable (_ ∨ _))

/-- The tokens of a text no longer than `fuel`. -/
def tokens : Nat → List UInt8 → Option (List Token)
  | _, [] => some []
  | 0, _ :: _ => none
  | fuel + 1, c :: rest =>
      if IsQuote c then
        (scan c rest).bind fun (value, rest) => (tokens fuel rest).map (.literal value :: ·)
      else (tokens fuel rest).map (.symbol c :: ·)

def tokenize (text : List UInt8) : Option (List Token) := tokens text.length text

example : tokenize [65, 39, 66, 39, 39, 92, 110, 39, 67] =
    some [.symbol 65, .literal [66, 39, 10], .symbol 67] := by decide

/-- A text that stands for itself between single quotes. -/
def Clean : List UInt8 → Prop
  | [] => True
  | c :: rest =>
      c ≠ quote ∧ (c = backslash → rest.head? = some percent ∨ rest.head? = some underscore) ∧
        Clean rest

instance decidableClean : (text : List UInt8) → Decidable (Clean text)
  | [] => instDecidableTrue
  | _ :: rest => have := decidableClean rest; inferInstanceAs (Decidable (_ ∧ _ ∧ _))

/-- A byte that means something in a literal. -/
def IsMark (c : UInt8) : Prop := c = quote ∨ c = backslash

instance (c : UInt8) : Decidable (IsMark c) := inferInstanceAs (Decidable (_ ∨ _))

/-- What follows a closing quote and cannot be taken for more of the literal. -/
def Quiet (more : List UInt8) : Prop :=
  ∀ h ∈ more.head?, ¬IsMark h ∧ h ≠ 0

theorem unescape_cases (d : UInt8) :
    (d = percent ∨ d = underscore) ∧ unescape d = [backslash, d] ∨
      ¬(d = percent ∨ d = underscore) ∧ ∃ z, unescape d = [z] ∧ (IsMark z → z = d) := by
  by_cases pattern : d = percent ∨ d = underscore
  · exact .inl ⟨pattern, if_pos pattern⟩
  · refine .inr ⟨pattern, ?_⟩
    rw [unescape, if_neg pattern]
    split_ifs
    all_goals exact ⟨_, rfl, by simp [IsMark, quote, backslash]⟩

theorem scan_plain {q c : UInt8} (other : c ≠ q) (escape : c ≠ backslash) (rest : List UInt8) :
    scan q (c :: rest) = (scan q rest).map fun (value, rest) => (c :: value, rest) := by
  cases rest <;> simp [scan, other, escape]

theorem scan_escape (q d : UInt8) (rest : List UInt8) :
    scan q (backslash :: d :: rest) =
      (scan q rest).map fun (value, rest) => (unescape d ++ value, rest) := by
  simp [scan]

theorem quote_ne_backslash : quote ≠ backslash := by decide

theorem scan_doubled (rest : List UInt8) :
    scan quote (quote :: quote :: rest) =
      (scan quote rest).map fun (value, rest) => (quote :: value, rest) := by
  simp [scan, quote_ne_backslash]

theorem scan_close {rest : List UInt8} (next : rest.head? ≠ some quote) :
    scan quote (quote :: rest) = some ([], rest) := by
  cases rest with
  | nil => rfl
  | cons d rest =>
      have other : d ≠ quote := fun eq => next (congrArg some eq)
      simp [scan, other, quote_ne_backslash]

theorem Quiet.next {more : List UInt8} (quiet : Quiet more) : more.head? ≠ some quote :=
  fun head => (quiet quote head).1 (.inl rfl)

/-- What would be read past the quote does not begin with a mark or a terminator. -/
theorem Quiet.scanned {more value rest : List UInt8} (quiet : Quiet more)
    (found : scan quote more = some (value, rest)) :
    ∃ h, value.head? = some h ∧ ¬IsMark h ∧ h ≠ 0 := by
  cases more with
  | nil => cases found
  | cons c more =>
      obtain ⟨plain, filled⟩ := quiet c rfl
      rw [scan_plain (fun eq => plain (.inl eq)) (fun eq => plain (.inr eq))] at found
      obtain ⟨⟨value, rest⟩, -, eq⟩ := Option.map_eq_some_iff.mp found
      cases eq
      exact ⟨c, rfl, plain, filled⟩

/-- Once the value has fallen behind what was written, which only marks bring about, it never
catches up. -/
theorem scan_behind {more : List UInt8} (quiet : Quiet more) (w : List UInt8) :
    ∀ h a, IsMark h → (∀ c ∈ a, IsMark c) → ∀ extra rest,
      scan quote (w ++ quote :: more) ≠ some (h :: a ++ w ++ extra, rest) := by
  induction w using List.twoStepInduction with
  | nil =>
      intro h a mark marks extra rest found
      rw [List.nil_append, scan_close quiet.next] at found
      cases found
  | singleton x =>
      intro h a mark marks extra rest found
      -- The closing quote is read as the second byte of a pair.
      have past {value rest} (found : scan quote more = some (value, rest))
          (eq : quote :: value = h :: a ++ [x] ++ extra) (special : IsMark x) : False := by
        obtain ⟨g, head, plain, -⟩ := quiet.scanned found
        rw [(List.cons.inj eq).2] at head
        cases a with
        | nil => cases head; exact plain special
        | cons c a => cases head; exact plain (marks _ List.mem_cons_self)
      by_cases isQuote : x = quote
      · subst isQuote
        rw [List.singleton_append, scan_doubled] at found
        obtain ⟨⟨value, rest'⟩, found, eq⟩ := Option.map_eq_some_iff.mp found
        exact past found (Prod.mk.inj eq).1 (.inl rfl)
      · by_cases isEscape : x = backslash
        · subst isEscape
          rw [List.singleton_append, scan_escape] at found
          obtain ⟨⟨value, rest'⟩, found, eq⟩ := Option.map_eq_some_iff.mp found
          exact past found (Prod.mk.inj eq).1 (.inr rfl)
        · rw [List.singleton_append, scan_plain isQuote isEscape] at found
          obtain ⟨_, -, eq⟩ := Option.map_eq_some_iff.mp found
          cases (List.cons.inj (Prod.mk.inj eq).1).1
          exact mark.elim isQuote isEscape
  | cons_cons x y w ih _ =>
      intro h a mark marks extra rest found
      simp only [List.cons_append] at found
      -- A pair that is read as one mark leaves the value two marks behind.
      have pair {value left} (scanned : scan quote (w ++ quote :: more) = some (value, left))
          (eq : value = a ++ x :: y :: w ++ extra) (first : IsMark x) (second : IsMark y) :
          False := by
        have both : ∀ c ∈ [x, y], IsMark c := by simp [first, second]
        cases a with
        | nil =>
            exact ih x [y] first (by simpa using second) extra left (by simpa [eq] using scanned)
        | cons c a =>
            refine ih c (a ++ [x, y]) (marks c List.mem_cons_self) ?_ extra left
              (by simpa [eq] using scanned)
            intro d member
            rcases List.mem_append.mp member with old | new
            · exact marks d (List.mem_cons_of_mem c old)
            · exact both d new
      by_cases isQuote : x = quote
      · subst isQuote
        by_cases again : y = quote
        · subst again
          rw [scan_doubled] at found
          obtain ⟨⟨value, rest'⟩, found, eq⟩ := Option.map_eq_some_iff.mp found
          exact pair found (List.cons.inj (Prod.mk.inj eq).1).2 (.inl rfl) (.inl rfl)
        · have next : (y :: (w ++ quote :: more)).head? ≠ some quote :=
            fun head => again (Option.some.inj head)
          rw [scan_close next] at found
          cases found
      · by_cases isEscape : x = backslash
        · subst isEscape
          rw [scan_escape] at found
          obtain ⟨⟨value, rest'⟩, found, eq⟩ := Option.map_eq_some_iff.mp found
          replace eq := (Prod.mk.inj eq).1
          rcases unescape_cases y with ⟨pattern, both⟩ | ⟨-, z, one, same⟩
          · have plain : ¬IsMark y := by
              rcases pattern with rfl | rfl <;> simp [IsMark, percent, underscore, quote, backslash]
            rw [both] at eq
            have second := (List.cons.inj eq).2
            cases a with
            | nil =>
                -- `y` would be the backslash itself.
                exact plain (.inr (List.cons.inj second).1)
            | cons c a =>
                cases (List.cons.inj second).1
                exact plain (marks y List.mem_cons_self)
          · rw [one] at eq
            cases (List.cons.inj eq).1
            have y_mark : IsMark y := same mark ▸ mark
            exact pair found (List.cons.inj eq).2 (.inr rfl) y_mark
        · rw [scan_plain isQuote isEscape] at found
          obtain ⟨_, -, eq⟩ := Option.map_eq_some_iff.mp found
          cases (List.cons.inj (Prod.mk.inj eq).1).1
          exact mark.elim isQuote isEscape

theorem scan_clean {more : List UInt8} (next : more.head? ≠ some quote) (w : List UInt8) :
    Clean w → scan quote (w ++ quote :: more) = some (w, more) := by
  induction w using List.twoStepInduction with
  | nil => exact fun _ => scan_close next
  | singleton x =>
      rintro ⟨isQuote, escape, -⟩
      have isEscape : x ≠ backslash := fun eq => by simpa using escape eq
      rw [List.singleton_append, scan_plain isQuote isEscape, scan_close next]
      rfl
  | cons_cons x y w ih ih' =>
      rintro ⟨isQuote, escape, clean⟩
      by_cases isEscape : x = backslash
      · subst isEscape
        have pattern : y = percent ∨ y = underscore := by simpa using escape rfl
        have both : unescape y = [backslash, y] := if_pos pattern
        simp only [List.cons_append]
        rw [scan_escape, ih clean.2.2, Option.map_some, both]
        rfl
      · rw [List.cons_append, scan_plain isQuote isEscape, ih' y clean]
        rfl

/-- A literal that was written from `w` and is read as `w`, or as more from a terminator on, was
closed where it should be. -/
theorem clean_of_scan {more : List UInt8} (quiet : Quiet more) (w : List UInt8) :
    ∀ extra rest, (∀ h ∈ extra.head?, h = 0) →
      scan quote (w ++ quote :: more) = some (w ++ extra, rest) →
        extra = [] ∧ Clean w ∧ rest = more := by
  induction w using List.twoStepInduction with
  | nil =>
      intro extra rest _ found
      rw [List.nil_append, scan_close quiet.next] at found
      cases found
      exact ⟨rfl, trivial, rfl⟩
  | singleton x =>
      intro extra rest stopped found
      rw [List.singleton_append] at found
      by_cases isQuote : x = quote
      · subst isQuote
        rw [scan_doubled] at found
        obtain ⟨⟨value, rest'⟩, scanned, eq⟩ := Option.map_eq_some_iff.mp found
        obtain ⟨h, head, -, filled⟩ := quiet.scanned scanned
        cases eq
        exact absurd (stopped h head) filled
      · by_cases isEscape : x = backslash
        · subst isEscape
          rw [scan_escape] at found
          obtain ⟨_, -, eq⟩ := Option.map_eq_some_iff.mp found
          cases (List.cons.inj (Prod.mk.inj eq).1).1
        · rw [scan_plain isQuote isEscape, scan_close quiet.next] at found
          cases found
          exact ⟨rfl, ⟨isQuote, fun eq => absurd eq isEscape, trivial⟩, rfl⟩
  | cons_cons x y w ih ih' =>
      intro extra rest stopped found
      simp only [List.cons_append] at found
      by_cases isQuote : x = quote
      · subst isQuote
        by_cases again : y = quote
        · subst again
          rw [scan_doubled] at found
          obtain ⟨⟨value, rest'⟩, scanned, eq⟩ := Option.map_eq_some_iff.mp found
          cases eq
          exact absurd scanned (scan_behind quiet w quote [] (.inl rfl) (by simp) extra rest)
        · have next : (y :: (w ++ quote :: more)).head? ≠ some quote :=
            fun head => again (Option.some.inj head)
          rw [scan_close next] at found
          cases found
      · by_cases isEscape : x = backslash
        · subst isEscape
          rw [scan_escape] at found
          obtain ⟨⟨value, rest'⟩, scanned, eq⟩ := Option.map_eq_some_iff.mp found
          rcases unescape_cases y with ⟨pattern, both⟩ | ⟨-, z, one, same⟩
          · rw [both] at eq
            cases eq
            obtain ⟨ended, clean, closed⟩ := ih extra rest stopped scanned
            have plain : y ≠ quote ∧ y ≠ backslash := by
              rcases pattern with rfl | rfl <;> decide
            exact ⟨ended, ⟨isQuote, fun _ => by simpa using pattern, plain.1,
              fun eq => absurd eq plain.2, clean⟩, closed⟩
          · rw [one] at eq
            cases (List.cons.inj (Prod.mk.inj eq).1).1
            cases same (.inr rfl)
            cases eq
            exact absurd scanned (scan_behind quiet w backslash [] (.inr rfl) (by simp) extra rest)
        · rw [scan_plain isQuote isEscape] at found
          obtain ⟨⟨value, rest'⟩, scanned, eq⟩ := Option.map_eq_some_iff.mp found
          cases eq
          obtain ⟨ended, clean, closed⟩ := ih' y extra rest stopped scanned
          exact ⟨ended, ⟨isQuote, fun eq => absurd eq isEscape, clean⟩, closed⟩

/-- The literal of a text that is cut at its terminator, read back as the whole text. -/
theorem scan_terminated_iff {more : List UInt8} (quiet : Quiet more) (text rest : List UInt8) :
    scan quote (text.takeWhile (· ≠ 0) ++ quote :: more) = some (text, rest) ↔
      (0 ∉ text ∧ Clean text) ∧ rest = more := by
  constructor
  · intro found
    have stopped : ∀ h ∈ (text.dropWhile (· ≠ 0)).head?, h = 0 := by
      intro h head
      have stop := List.head?_dropWhile_not (· ≠ 0) text
      rw [Option.mem_def.mp head] at stop
      simpa using stop
    have whole := List.takeWhile_append_dropWhile (p := (· ≠ 0)) (l := text)
    obtain ⟨ended, clean, closed⟩ := clean_of_scan quiet (text.takeWhile (· ≠ 0))
      (text.dropWhile (· ≠ 0)) rest stopped (by rw [whole]; exact found)
    rw [ended, List.append_nil] at whole
    have filled : 0 ∉ text := by
      intro member
      rw [← whole] at member
      simpa using List.mem_takeWhile_imp member
    exact ⟨⟨filled, whole ▸ clean⟩, closed⟩
  · rintro ⟨⟨filled, clean⟩, rfl⟩
    have whole : text.takeWhile (· ≠ 0) = text := by
      rw [List.takeWhile_eq_self_iff]
      intro c member
      simpa using fun eq : c = 0 => filled (eq ▸ member)
    rw [whole, scan_clean quiet.next text clean]

theorem tokens_symbols (front : List UInt8) (plain : ∀ c ∈ front, ¬IsQuote c) (fuel : Nat)
    (rest : List UInt8) :
    tokens (front.length + fuel) (front ++ rest) =
      (tokens fuel rest).map (front.map .symbol ++ ·) := by
  induction front with
  | nil => simp
  | cons c front ih =>
      have shift : (c :: front).length + fuel = front.length + fuel + 1 := by
        simp only [List.length_cons]
        omega
      rw [shift, List.cons_append, tokens, if_neg (plain c List.mem_cons_self),
        ih (fun d member => plain d (List.mem_cons_of_mem c member)), Option.map_map]
      rfl

theorem tokens_literal (fuel : Nat) (rest : List UInt8) :
    tokens (fuel + 1) (quote :: rest) = (scan quote rest).bind fun (value, rest) =>
      (tokens fuel rest).map (.literal value :: ·) :=
  if_pos (.inl rfl)

theorem tokens_symbols_iff (front : List UInt8) (plain : ∀ c ∈ front, ¬IsQuote c) (fuel : Nat)
    (rest : List UInt8) (tail : List Token) :
    tokens (front.length + fuel) (front ++ rest) = some (front.map .symbol ++ tail) ↔
      tokens fuel rest = some tail := by
  rw [tokens_symbols front plain, Option.map_eq_some_iff]
  constructor
  · rintro ⟨found, scanned, eq⟩
    rw [scanned, List.append_cancel_left eq]
  · exact fun scanned => ⟨tail, scanned, rfl⟩

theorem tokens_literal_iff {more : List UInt8} (quiet : Quiet more) (text : List UInt8) (fuel : Nat)
    (tail : List Token) :
    tokens (fuel + 1) (quote :: (text.takeWhile (· ≠ 0) ++ quote :: more)) =
        some (.literal text :: tail) ↔
      (0 ∉ text ∧ Clean text) ∧ tokens fuel more = some tail := by
  rw [tokens_literal, Option.bind_eq_some_iff]
  constructor
  · rintro ⟨⟨value, rest⟩, scanned, found⟩
    obtain ⟨after, read, eq⟩ := Option.map_eq_some_iff.mp found
    cases eq
    obtain ⟨verbatim, rfl⟩ := (scan_terminated_iff quiet text rest).mp scanned
    exact ⟨verbatim, read⟩
  · rintro ⟨verbatim, read⟩
    refine ⟨(text, more), (scan_terminated_iff quiet text more).mpr ⟨verbatim, rfl⟩, ?_⟩
    exact congrArg (Option.map (Token.literal text :: ·)) read

end Cgsf.Library.SqlText
