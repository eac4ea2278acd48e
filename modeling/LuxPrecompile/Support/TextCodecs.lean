import Mathlib.Data.List.Basic
import Mathlib.Data.String.Basic
import LuxPrecompile.Support.Decimal

/-!
# Values as JSON texts

A text codec writes values and reads them back from the start of a text,
leaving the rest.  Codecs of integers, strings, lists and fields are put
together to codecs of records; each comes with the proof that what it writes
is what it reads.
-/

namespace LuxPrecompile.Support

/-! ## Digits -/

/-- The value of a hexadecimal digit of either case. -/
def hexDigit? (c : Char) : Option ℕ :=
  if c.isDigit then some (c.toNat - 48)
  else if 97 ≤ c.toNat ∧ c.toNat < 103 then some (c.toNat - 87)
  else if 65 ≤ c.toNat ∧ c.toNat < 71 then some (c.toNat - 55)
  else none

theorem hexDigit?_digitChar : ∀ d < 16, hexDigit? (Nat.digitChar d) = some d := by decide

/-- A character of a number. -/
def isNumeric (c : Char) : Bool := c.isDigit || c = '-'

/-- A number does not go on into the rest. -/
def Ends (rest : List Char) : Prop := ∀ c ∈ rest.head?, isNumeric c = false

theorem Decimal.isNumeric_of_mem_text {v : ℤ} {c : Char} (h : c ∈ Decimal.text v) :
    isNumeric c = true := by
  have hdigits : ∀ n : ℕ, c ∈ Nat.toDigits 10 n → isNumeric c = true := by
    intro n hmem
    rw [isNumeric, Nat.isDigit_of_mem_toDigits (by norm_num) (le_refl 10) hmem, Bool.true_or]
  rw [Decimal.text] at h
  split_ifs at h
  · rcases List.mem_cons.mp h with rfl | h
    · rfl
    · exact hdigits _ h
  · exact hdigits _ h

/-! ## Codecs -/

/-- A way to write values as texts and to read them from the start of a text. -/
structure TextCodec (α : Type) where
  write : α → List Char
  read : List Char → Option (α × List Char)
  read_write : ∀ a rest, Ends rest → read (write a ++ rest) = some (a, rest)

/-- The text behind a word. -/
def expect : List Char → List Char → Option (List Char)
  | [], rest => some rest
  | _ :: _, [] => none
  | w :: word, c :: rest => if w = c then expect word rest else none

theorem expect_append (word rest : List Char) : expect word (word ++ rest) = some rest := by
  induction word with
  | nil => rfl
  | cons w word ih => rw [List.cons_append, expect, if_pos rfl, ih]

namespace TextCodec

variable {α β : Type}

theorem read_write_cons (c : TextCodec α) (a : α) {next : Char} (rest : List Char)
    (h : isNumeric next = false) : c.read (c.write a ++ next :: rest) = some (a, next :: rest) := by
  refine c.read_write a _ fun d hd => ?_
  rw [← Option.some.inj hd]
  exact h

/-- The integers in decimal. -/
def int : TextCodec ℤ where
  write := Decimal.text
  read cs := (Decimal.read (cs.takeWhile isNumeric)).map fun v => (v, cs.dropWhile isNumeric)
  read_write v rest hrest := by
    have hall : ∀ c ∈ Decimal.text v, isNumeric c = true := fun c => Decimal.isNumeric_of_mem_text
    have htake : rest.takeWhile isNumeric = [] := by
      cases rest with
      | nil => rfl
      | cons c rest => rw [List.takeWhile_cons_of_neg (by rw [hrest c rfl]; decide)]
    have hdrop : rest.dropWhile isNumeric = rest := by
      cases rest with
      | nil => rfl
      | cons c rest => rw [List.dropWhile_cons_of_neg (by rw [hrest c rfl]; decide)]
    rw [List.takeWhile_append_of_pos hall, List.dropWhile_append_of_pos hall, htake, hdrop,
      List.append_nil, Decimal.read_text]
    rfl

/-- A codec of the values that another one's values stand for. -/
def imap (c : TextCodec β) (f : α → β) (g : β → α) (h : ∀ a, g (f a) = a) : TextCodec α where
  write a := c.write (f a)
  read cs := (c.read cs).map fun r => (g r.1, r.2)
  read_write a rest hrest := by
    rw [c.read_write (f a) rest hrest, Option.map_some, h]

/-- A value behind a word. -/
def after (word : List Char) (c : TextCodec α) : TextCodec α where
  write a := word ++ c.write a
  read cs := (expect word cs).bind c.read
  read_write a rest hrest := by
    rw [List.append_assoc, expect_append, Option.bind_some, c.read_write a rest hrest]

/-- A value before a character that no number has. -/
def before (next : Char) (hnext : isNumeric next = false) (c : TextCodec α) : TextCodec α where
  write a := c.write a ++ [next]
  read cs := (c.read cs).bind fun r => (expect [next] r.2).map fun rest => (r.1, rest)
  read_write a rest _ := by
    rw [List.append_assoc, List.singleton_append, c.read_write_cons a rest hnext, Option.bind_some]
    exact congrArg (fun r => r.map fun rest => (a, rest)) (expect_append [next] rest)

/-- Two values with a comma between them. -/
def seq (c : TextCodec α) (d : TextCodec β) : TextCodec (α × β) where
  write a := c.write a.1 ++ ',' :: d.write a.2
  read cs := (c.read cs).bind fun r => ((after [','] d).read r.2).map fun s => ((r.1, s.1), s.2)
  read_write a rest hrest := by
    have hd := (after [','] d).read_write a.2 rest hrest
    rw [List.append_assoc, List.cons_append, c.read_write_cons a.1 _ (by decide), Option.bind_some]
    exact congrArg (fun s => s.map fun s => ((a.1, s.1), s.2)) hd

/-! ## Strings -/

/-- The characters that are escaped by a letter. -/
def shortEscapes : List (Char × Char) :=
  [('"', '"'), ('\\', '\\'), ('\x08', 'b'), ('\x0c', 'f'), ('\n', 'n'), ('\r', 'r'), ('\t', 't')]

/-- The other characters that are escaped: those of HTML, two line separators and the control
characters. -/
def isEscaped (c : Char) : Bool :=
  c.toNat < 32 || c ∈ ['<', '>', '&', '\u2028', '\u2029']

/-- Four hexadecimal digits. -/
def hexFour (n : ℕ) : List Char :=
  [Nat.digitChar (n / 4096 % 16), Nat.digitChar (n / 256 % 16), Nat.digitChar (n / 16 % 16),
    Nat.digitChar (n % 16)]

def escape (c : Char) : List Char :=
  match shortEscapes.find? fun e => e.1 = c with
  | some e => ['\\', e.2]
  | none => if isEscaped c then '\\' :: 'u' :: hexFour c.toNat else [c]

/-- The character of four hexadecimal digits. -/
def hexChar? (a b c d : Char) : Option Char := do
  let a ← hexDigit? a
  let b ← hexDigit? b
  let c ← hexDigit? c
  let d ← hexDigit? d
  some (Char.ofNat (4096 * a + 256 * b + 16 * c + d))

/-- The characters up to the closing quote, and the text behind it. -/
def readChars : List Char → Option (List Char × List Char)
  | [] => none
  | '"' :: rest => some ([], rest)
  | '\\' :: 'u' :: a :: b :: c :: d :: rest =>
      (hexChar? a b c d).bind fun x => (readChars rest).map fun r => (x :: r.1, r.2)
  | '\\' :: x :: rest =>
      (shortEscapes.find? fun e => e.2 = x).bind fun e =>
        (readChars rest).map fun r => (e.1 :: r.1, r.2)
  | x :: rest => (readChars rest).map fun r => (x :: r.1, r.2)

theorem hexChar?_hexFour {c : Char} (h : c.toNat < 65536) (rest : List Char) :
    readChars ('\\' :: 'u' :: (hexFour c.toNat ++ rest)) =
      (readChars rest).map fun r => (c :: r.1, r.2) := by
  have hdigit : ∀ n : ℕ, hexDigit? (Nat.digitChar (n % 16)) = some (n % 16) := fun n =>
    hexDigit?_digitChar _ (Nat.mod_lt n (by norm_num))
  have hvalue : 4096 * (c.toNat / 4096 % 16) + 256 * (c.toNat / 256 % 16) +
      16 * (c.toNat / 16 % 16) + c.toNat % 16 = c.toNat := by
    omega
  have hchar : hexChar? (Nat.digitChar (c.toNat / 4096 % 16)) (Nat.digitChar (c.toNat / 256 % 16))
      (Nat.digitChar (c.toNat / 16 % 16)) (Nat.digitChar (c.toNat % 16)) = some c := by
    simp only [hexChar?, hdigit, Option.bind_eq_bind, Option.bind_some, hvalue, Char.ofNat_toNat]
  simp only [hexFour, List.cons_append, List.nil_append]
  rw [readChars, hchar, Option.bind_some]

theorem readChars_shortEscape {e : Char × Char} (h : e ∈ shortEscapes) (rest : List Char) :
    readChars ('\\' :: e.2 :: rest) = (readChars rest).map fun r => (e.1 :: r.1, r.2) := by
  simp only [shortEscapes, List.mem_cons, List.not_mem_nil, or_false] at h
  rcases h with rfl | rfl | rfl | rfl | rfl | rfl | rfl <;> rfl

/-- An escaped character is read as the character. -/
theorem readChars_escape (c : Char) (rest : List Char) :
    readChars (escape c ++ rest) = (readChars rest).map fun r => (c :: r.1, r.2) := by
  rw [escape]
  cases hfind : shortEscapes.find? fun e => e.1 = c with
  | some e =>
      have hchar : e.1 = c := by simpa using List.find?_some hfind
      rw [← hchar]
      exact readChars_shortEscape (List.mem_of_find?_eq_some hfind) rest
  | none =>
      have hne : ∀ e ∈ shortEscapes, c ≠ e.1 := by
        intro e he heq
        simpa [heq] using List.find?_eq_none.mp hfind e he
      split_ifs with hescaped
      · refine hexChar?_hexFour ?_ rest
        simp only [isEscaped, Bool.or_eq_true, decide_eq_true_eq, List.mem_cons,
          List.not_mem_nil, or_false] at hescaped
        rcases hescaped with hlt | rfl | rfl | rfl | rfl | rfl
        · omega
        all_goals decide
      · rw [List.singleton_append, readChars]
        · exact hne ('"', '"') (by decide)
        · rintro _ _ _ _ _ rfl
          exact absurd rfl (hne ('\\', '\\') (by decide))
        · rintro _ _ rfl
          exact absurd rfl (hne ('\\', '\\') (by decide))

/-- The strings in quotes. -/
def string : TextCodec String where
  write s := '"' :: (s.toList.flatMap escape ++ ['"'])
  read cs := ((expect ['"'] cs).bind readChars).map fun r => (String.ofList r.1, r.2)
  read_write s rest _ := by
    have hread : ∀ cs : List Char,
        readChars (cs.flatMap escape ++ '"' :: rest) = some (cs, rest) := by
      intro cs
      induction cs with
      | nil => rfl
      | cons c cs ih => rw [List.flatMap_cons, List.append_assoc, readChars_escape, ih]; rfl
    have hquote : expect ['"'] ('"' :: (s.toList.flatMap escape ++ ['"']) ++ rest) =
        some (s.toList.flatMap escape ++ '"' :: rest) := by
      rw [List.cons_append, List.append_assoc]
      rfl
    rw [hquote, Option.bind_some, hread, Option.map_some, String.ofList_toList]

/-! ## Lists -/

/-- The values of a list up to its closing bracket. -/
def writeItems (c : TextCodec α) : List α → List Char
  | [] => []
  | [a] => c.write a ++ [']']
  | a :: l => c.write a ++ ',' :: writeItems c l

/-- At most so many values of a list, up to its closing bracket. -/
def readItems (c : TextCodec α) : ℕ → List Char → Option (List α × List Char)
  | 0, _ => none
  | n + 1, cs =>
      match c.read cs with
      | some (a, ']' :: rest) => some ([a], rest)
      | some (a, ',' :: rest) => (readItems c n rest).map fun r => (a :: r.1, r.2)
      | _ => none

theorem readItems_writeItems (c : TextCodec α) {l : List α} (hl : l ≠ []) {n : ℕ}
    (hn : l.length ≤ n) (rest : List Char) :
    readItems c n (writeItems c l ++ rest) = some (l, rest) := by
  induction l generalizing n with
  | nil => exact absurd rfl hl
  | cons a l ih =>
      obtain ⟨n, rfl⟩ : ∃ k, n = k + 1 := Nat.exists_eq_add_one.mpr (by
        rw [List.length_cons] at hn
        omega)
      rw [List.length_cons, Nat.add_le_add_iff_right] at hn
      cases l with
      | nil =>
          rw [writeItems, List.append_assoc, List.singleton_append, readItems,
            c.read_write_cons a rest (by decide)]
          rfl
      | cons b l =>
          rw [writeItems, List.append_assoc, List.cons_append, readItems,
            c.read_write_cons a _ (by decide)]
          · simp only
            rw [ih (List.cons_ne_nil b l) hn]
            rfl
          · exact List.cons_ne_nil b l

theorem length_le_writeItems (c : TextCodec α) (l : List α) :
    l.length ≤ (writeItems c l).length := by
  induction l with
  | nil => exact Nat.zero_le _
  | cons a l ih =>
      cases l with
      | nil =>
          rw [writeItems, List.length_append, List.length_singleton, List.length_singleton]
          exact Nat.le_add_left _ _
      | cons b l =>
          rw [writeItems]
          · simp only [List.length_append, List.length_cons] at ih ⊢
            omega
          · exact List.cons_ne_nil b l

/-- The lists in brackets; a list without values is written as `null`. -/
def list (c : TextCodec α) : TextCodec (List α) where
  write
    | [] => "null".toList
    | a :: l => '[' :: writeItems c (a :: l)
  read cs :=
    match expect "null".toList cs with
    | some rest => some ([], rest)
    | none => (expect ['['] cs).bind fun rest => readItems c rest.length rest
  read_write l rest _ := by
    cases l with
    | nil => rfl
    | cons a l =>
        have hlen : (a :: l).length ≤ (writeItems c (a :: l) ++ rest).length := by
          rw [List.length_append]
          exact (length_le_writeItems c (a :: l)).trans (Nat.le_add_right _ _)
        exact readItems_writeItems c (List.cons_ne_nil a l) hlen rest

/-! ## Records -/

/-- A value under a name. -/
def field (name : String) (c : TextCodec α) : TextCodec α :=
  after ('"' :: (name.toList ++ ['"', ':'])) c

/-- A record of fields. -/
def object (c : TextCodec α) : TextCodec α :=
  after ['\x7b'] (before '\x7d' (by decide) c)

/-! ## Documents -/

/-- The value that a whole text stands for. -/
def readAll (c : TextCodec α) (cs : List Char) : Option α :=
  (c.read cs).bind fun r => if r.2 = [] then some r.1 else none

theorem readAll_write (c : TextCodec α) (a : α) : c.readAll (c.write a) = some a := by
  have hread := c.read_write a [] fun c hc => by cases hc
  rw [List.append_nil] at hread
  rw [readAll, hread, Option.bind_some, if_pos rfl]

end TextCodec

end LuxPrecompile.Support
