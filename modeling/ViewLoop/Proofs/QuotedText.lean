import ViewLoop.Text.Quoted
import ViewLoop.Url.Percent

/-!
# Reading quoted text

The characters of a quoted text can be read back one by one (`unquoteChar`), and its closing quote
is told from them, so a quoted text shows where it ends (`quoted_append_inj`).
-/

namespace ViewLoop.Text

/-! ### Hexadecimal numbers -/

def hexNumber (digits : List Char) : Nat :=
  digits.foldl (fun n c => 16 * n + (Url.hexValue? c).getD 0) 0

theorem hexValue?_digitChar {d : Nat} (h : d < 16) : Url.hexValue? d.digitChar = some d := by
  have hall : ∀ i : Fin 16, Url.hexValue? i.val.digitChar = some i.val := by decide
  exact hall ⟨d, h⟩

theorem hex_eq (n : Nat) :
    hex n = if n < 16 then [n.digitChar] else hex (n / 16) ++ [(n % 16).digitChar] :=
  Nat.toDigits_eq_if (by omega)

theorem hexNumber_hex (n : Nat) : hexNumber (hex n) = n := by
  induction n using Nat.strongRecOn with
  | ind n ih =>
    rw [hex_eq]
    split
    · next h => simp [hexNumber, hexValue?_digitChar h]
    · next h =>
      have hhigh := ih (n / 16) (by omega)
      have hlow : n % 16 < 16 := by omega
      unfold hexNumber at hhigh ⊢
      rw [List.foldl_append, hhigh, List.foldl_cons, List.foldl_nil, hexValue?_digitChar hlow,
        Option.getD_some]
      omega

theorem isSome_of_mem_hex {n : Nat} {c : Char} (h : c ∈ hex n) :
    (Url.hexValue? c).isSome = true := by
  induction n using Nat.strongRecOn with
  | ind n ih =>
    rw [hex_eq] at h
    split at h
    · next hn =>
      rw [List.mem_singleton.mp h, hexValue?_digitChar hn]
      rfl
    · next hn =>
      rcases List.mem_append.mp h with hhigh | hlow
      · exact ih (n / 16) (by omega) hhigh
      · have hd : n % 16 < 16 := by omega
        rw [List.mem_singleton.mp hlow, hexValue?_digitChar hd]
        rfl

/-! ### Characters -/

/-- What a single character behind a backslash stands for. -/
def escapedChar : Char → Char
  | 'n' => '\n'
  | 'r' => '\r'
  | 't' => '\t'
  | '0' => '\x00'
  | c => c

/-- The first character of a quoted text, and the rest of it. -/
def unquoteChar : List Char → Option (Char × List Char)
  | '\\' :: 'u' :: '\x7b' :: rest =>
    some (Char.ofNat (hexNumber (rest.takeWhile (· ≠ '\x7d'))),
      (rest.dropWhile (· ≠ '\x7d')).drop 1)
  | '\\' :: c :: rest => some (escapedChar c, rest)
  | '"' :: _ => none
  | c :: rest => some (c, rest)
  | [] => none

theorem unquoteChar_codePoint (c : Char) (rest : List Char) :
    unquoteChar (['\\', 'u', '\x7b'] ++ hex c.toNat ++ ['\x7d'] ++ rest) = some (c, rest) := by
  have hdigits : ∀ d ∈ hex c.toNat, decide (d ≠ '\x7d') = true := by
    intro d hd
    have hvalue := isSome_of_mem_hex hd
    rw [decide_eq_true_iff]
    rintro rfl
    exact absurd hvalue (by decide)
  have hcut : ['\\', 'u', '\x7b'] ++ hex c.toNat ++ ['\x7d'] ++ rest
      = '\\' :: 'u' :: '\x7b' :: (hex c.toNat ++ '\x7d' :: rest) := by simp
  rw [hcut, unquoteChar, List.takeWhile_append_of_pos hdigits, List.dropWhile_append_of_pos hdigits]
  simp [hexNumber_hex]

theorem unquoteChar_quotedChar (c : Char) (rest : List Char) :
    unquoteChar (quotedChar c ++ rest) = some (c, rest) := by
  unfold quotedChar
  split
  · rfl
  · rfl
  · rfl
  · rfl
  · rfl
  · rfl
  · next hquote hbackslash _ _ _ _ =>
    split
    · exact unquoteChar_codePoint c rest
    · rw [List.cons_append, List.nil_append, unquoteChar] <;> simp_all

/-! ### Texts -/

theorem quotedChars_append_inj {cs ds l m : List Char}
    (h : cs.flatMap quotedChar ++ '"' :: l = ds.flatMap quotedChar ++ '"' :: m) :
    cs = ds ∧ l = m := by
  induction cs generalizing ds with
  | nil =>
    cases ds with
    | nil => exact ⟨rfl, (List.cons.inj h).2⟩
    | cons d ds =>
      have hread := congrArg unquoteChar h
      rw [List.flatMap_cons, List.append_assoc, unquoteChar_quotedChar] at hread
      exact nomatch hread
  | cons c cs ih =>
    have hread := congrArg unquoteChar h
    rw [List.flatMap_cons, List.append_assoc, unquoteChar_quotedChar] at hread
    cases ds with
    | nil => exact nomatch hread
    | cons d ds =>
      rw [List.flatMap_cons, List.append_assoc, unquoteChar_quotedChar] at hread
      obtain ⟨rfl, hrest⟩ := Prod.mk.inj (Option.some.inj hread)
      obtain ⟨rfl, rfl⟩ := ih hrest
      exact ⟨rfl, rfl⟩

/-- Where a quoted text ends can be seen from it, and it is read as one text only. -/
theorem quoted_append_inj {s t : String} {l m : List Char}
    (h : (quoted s).toList ++ l = (quoted t).toList ++ m) : s = t ∧ l = m := by
  simp only [quoted, String.toList_ofList, List.cons_append, List.append_assoc, List.cons.injEq,
    true_and, List.nil_append] at h
  obtain ⟨hchars, hrest⟩ := quotedChars_append_inj h
  exact ⟨String.toList_inj.mp hchars, hrest⟩

end ViewLoop.Text
