import TypedSettings.Proofs.Address
import TypedSettings.Proofs.Classes.Spelling
import TypedSettings.Proofs.Structs.Layout

/-!
# The spelling of key literals

The rules of string literals in the language of the module, as a relation (`IsSpelling`): between two quotes stand parts
that spell one character each, or none where a line is continued (`Spells`). A quoted text uses few of these rules, yet
whoever reads it may try them all.

* `quotedChars_isSpelling`: a quoted text spells the text, whichever characters are hidden;
* `Spells.eq_quotedChar`: where a quoted character stands, no part spells anything else, so that no literal that begins
  like a quoted text is another one (`IsSpelling.eq_quotedChars`);
* `keyLiterals_spell`: the literals of keys, and the lines that hold them, end where they are written to end.
-/

namespace TypedSettings.Structs

open Text
open Classes (unescaped unescaped_escape quote_not_mem_unescaped_append ne_of_hexValue?)

/-! ## The rules of literals -/

/-- The number that hexadecimal digits write behind those of a number. -/
def hexNumber? (n : Nat) : List Char → Option Nat
  | [] => some n
  | a :: digits => (Json.hexValue? a).bind fun d => hexNumber? (16 * n + d) digits

/-- The character that digits in braces stand for: one to six of them write its code point, with underscores between
and behind them that mean nothing. -/
def codePoint? (digits : List Char) : Option Char :=
  if digits.head? = some '_' then none
  else (hexNumber? 0 (digits.filter (· != '_'))).bind (bracedChar? (digits.filter (· != '_')).length)

/-- A part of a literal spells some characters. -/
inductive Spells : List Char → List Char → Prop
  /-- A character that is no quote, no backslash and no carriage return stands as it is. -/
  | plain {c : Char} : c ≠ '"' → c ≠ '\\' → c ≠ '\r' → Spells [c] [c]
  /-- A letter behind a backslash stands for a character. -/
  | letter {c a : Char} : letterEscape? a = some c → Spells [c] ['\\', a]
  /-- Two digits behind a backslash and an `x` write the code point of an ASCII character. -/
  | byte {a b : Char} {m n : Nat} : Json.hexValue? a = some m → Json.hexValue? b = some n → m < 8 →
    Spells [Char.ofNat (16 * m + n)] ['\\', 'x', a, b]
  /-- Digits in braces behind a backslash and a `u` write a code point. -/
  | braces {c : Char} {digits : List Char} : codePoint? digits = some c →
    Spells [c] ('\\' :: 'u' :: '\x7b' :: (digits ++ ['\x7d']))
  /-- A backslash at the end of a line continues it behind the blanks that follow, and spells nothing. -/
  | continued {blanks : List Char} : (∀ b ∈ blanks, Json.isBlank b = true) → Spells [] ('\\' :: '\n' :: blanks)

/-- Parts one behind the other spell what they spell in turn. -/
inductive SpellsAll : List Char → List Char → Prop
  | nil : SpellsAll [] []
  | cons {value part values parts : List Char} : Spells value part → SpellsAll values parts →
    SpellsAll (value ++ values) (part ++ parts)

/-- A text is a whole literal with a value. -/
def IsSpelling (value text : List Char) : Prop := ∃ parts, SpellsAll value parts ∧ text = '"' :: (parts ++ ['"'])

/-! ## The parts of quoted texts -/

variable {hidden : Char → Bool} {c : Char} {value part parts text digits rest behind : List Char}

theorem hexNumber?_append (n : Nat) (more : List Char) : ∀ digits : List Char,
    hexNumber? n (digits ++ more) = (hexNumber? n digits).bind (hexNumber? · more) := by
  intro digits
  induction digits generalizing n with
  | nil => rfl
  | cons a digits ih =>
    rw [List.cons_append, hexNumber?, hexNumber?, Option.bind_assoc]
    exact congrArg _ (funext fun d => ih (16 * n + d))

/-- The digits of a number write it. -/
theorem hexNumber?_hexDigits (n : Nat) : hexNumber? 0 (hexDigits n) = some n := by
  have hsingle : ∀ m d, d < 16 → hexNumber? m [d.digitChar] = some (16 * m + d) := by
    intro m d hd
    rw [hexNumber?, hexValue?_digitChar hd]
    rfl
  induction n using Nat.strong_induction_on with
  | h n ih =>
    by_cases hn : n < 16
    · rw [hexDigits_of_lt hn, hsingle 0 n hn, Nat.mul_zero, Nat.zero_add]
    · rw [hexDigits_of_le (by omega), hexNumber?_append, ih (n / 16) (by omega), Option.bind_some,
        hsingle _ _ (Nat.mod_lt n (by decide)), Nat.div_add_mod]

/-- Only digits write a number. -/
theorem exists_hexValue?_of_mem : ∀ {digits : List Char} {m n : Nat}, hexNumber? m digits = some n →
    ∀ a ∈ digits, ∃ d, Json.hexValue? a = some d
  | [], _, _, _ => List.forall_mem_nil _
  | a :: digits, m, n, h => by
    rw [hexNumber?] at h
    obtain ⟨d, hd, hbehind⟩ := Option.bind_eq_some_iff.mp h
    exact List.forall_mem_cons.mpr ⟨⟨d, hd⟩, exists_hexValue?_of_mem hbehind⟩

/-- What stands for a character in braces is made of digits and underscores. -/
theorem forall_mem_of_codePoint? (h : codePoint? digits = some c) :
    ∀ a ∈ digits, a = '_' ∨ ∃ d, Json.hexValue? a = some d := by
  intro a ha
  rw [codePoint?] at h
  split_ifs at h
  obtain ⟨n, hnumber, -⟩ := Option.bind_eq_some_iff.mp h
  by_cases hscore : a = '_'
  · exact Or.inl hscore
  · exact Or.inr (exists_hexValue?_of_mem hnumber a (List.mem_filter.mpr ⟨ha, bne_iff_ne.mpr hscore⟩))

/-- What holds of the sixteen digits holds of all digits of a number. -/
theorem forall_mem_hexDigits {P : Char → Prop} (hdigits : ∀ d : Fin 16, P d.val.digitChar) (n : Nat) :
    ∀ a ∈ hexDigits n, P a := by
  intro a ha
  obtain ⟨d, hd, rfl⟩ := exists_of_mem_hexDigits n ha
  exact hdigits ⟨d, hd⟩

/-- The digits of its code point stand for a character. -/
theorem codePoint?_hexDigits (c : Char) : codePoint? (hexDigits c.toNat) = some c := by
  have hdigits : ∀ a ∈ hexDigits c.toNat, (a != '_') = true := forall_mem_hexDigits (by decide) c.toNat
  have hall : (hexDigits c.toNat).filter (· != '_') = hexDigits c.toNat := List.filter_eq_self.mpr hdigits
  have hhead : (hexDigits c.toNat).head? ≠ some '_' := fun h =>
    bne_iff_ne.mp (hdigits '_' (List.mem_of_mem_head? h)) rfl
  rw [codePoint?, if_neg hhead, hall, hexNumber?_hexDigits, Option.bind_some, bracedChar?_toNat]

/-- What stands for itself in a quoted text: no quote, no backslash, no line feed and no carriage return. -/
structure StandsAsIs (c : Char) : Prop where
  ne_quote : c ≠ '"'
  ne_slash : c ≠ '\\'
  ne_feed : c ≠ '\n'
  ne_return : c ≠ '\r'

/-- A quoted character is a letter behind a backslash, its code point in braces, or the character itself. -/
theorem quotedChar_cases (hidden : Char → Bool) (c : Char) :
    (∃ a, letterEscape? a = some c ∧ quotedChar hidden c = ['\\', a]) ∨
      quotedChar hidden c = '\\' :: 'u' :: '\x7b' :: (hexDigits c.toNat ++ ['\x7d']) ∨
      quotedChar hidden c = [c] ∧ StandsAsIs c := by
  unfold quotedChar
  split_ifs with hquote hslash hfeed hreturn htab hnull hhidden
  · exact Or.inl ⟨'"', by rw [eq_of_beq hquote]; rfl, rfl⟩
  · exact Or.inl ⟨'\\', by rw [eq_of_beq hslash]; rfl, rfl⟩
  · exact Or.inl ⟨'n', by rw [eq_of_beq hfeed]; rfl, rfl⟩
  · exact Or.inl ⟨'r', by rw [eq_of_beq hreturn]; rfl, rfl⟩
  · exact Or.inl ⟨'t', by rw [eq_of_beq htab]; rfl, rfl⟩
  · have hc : c = '\x00' := by rw [← Char.ofNat_toNat c, eq_of_beq hnull]
    exact Or.inl ⟨'0', by rw [hc]; rfl, rfl⟩
  · exact Or.inr (Or.inl rfl)
  · refine Or.inr (Or.inr ⟨rfl, ?_⟩)
    exact ⟨by simpa using hquote, by simpa using hslash, by simpa using hfeed, by simpa using hreturn⟩

/-- A quoted character spells the character. -/
theorem spells_quotedChar (c : Char) : Spells [c] (quotedChar hidden c) := by
  rcases quotedChar_cases hidden c with ⟨a, ha, heq⟩ | heq | ⟨heq, hasis⟩
  · rw [heq]
    exact .letter ha
  · rw [heq]
    exact .braces (codePoint?_hexDigits c)
  · rw [heq]
    exact .plain hasis.ne_quote hasis.ne_slash hasis.ne_return

theorem spellsAll_flatMap : ∀ cs : List Char, SpellsAll cs (cs.flatMap (quotedChar hidden))
  | [] => .nil
  | c :: cs => .cons (spells_quotedChar c) (spellsAll_flatMap cs)

/-- **A quoted text spells the text**, whichever characters are hidden. -/
theorem quotedChars_isSpelling (cs : List Char) : IsSpelling cs (quotedChars hidden cs) :=
  ⟨cs.flatMap (quotedChar hidden), spellsAll_flatMap cs, rfl⟩

/-! ## No other reading -/

/-- The letters behind a backslash that begin longer escapes stand for no character themselves. -/
theorem ne_of_letterEscape? {a : Char} (h : letterEscape? a = some c) : a ≠ 'x' ∧ a ≠ 'u' ∧ a ≠ '\n' := by
  refine ⟨?_, ?_, ?_⟩
  all_goals
    rintro rfl
    cases h

/-- Texts without a brace that go on alike behind their closing braces are the same. -/
theorem eq_of_append_brace {xs ys : List Char} (hx : '\x7d' ∉ xs) (hy : '\x7d' ∉ ys)
    (h : xs ++ '\x7d' :: rest = ys ++ '\x7d' :: behind) : xs = ys := by
  have hfront : ∀ {zs more : List Char}, '\x7d' ∉ zs → (zs ++ '\x7d' :: more).takeWhile (· != '\x7d') = zs := by
    intro zs more hz
    have hall : ∀ a ∈ zs, (a != '\x7d') = true := fun a ha => bne_iff_ne.mpr (ne_of_mem_of_not_mem ha hz)
    rw [List.takeWhile_append_of_pos hall, List.takeWhile_cons_of_neg (by decide), List.append_nil]
  rw [← hfront hx, h, hfront hy]

theorem brace_not_mem (h : codePoint? digits = some c) : '\x7d' ∉ digits := by
  intro hmem
  rcases forall_mem_of_codePoint? h _ hmem with hscore | ⟨d, hd⟩
  · cases hscore
  · cases hd

theorem brace_not_mem_hexDigits (n : Nat) : '\x7d' ∉ hexDigits n := fun hmem =>
  forall_mem_hexDigits (P := (· ≠ '\x7d')) (by decide) n _ hmem rfl

/-- **Where a quoted character stands, no part spells anything else.** -/
theorem Spells.eq_quotedChar (h : Spells value part) (heq : quotedChar hidden c ++ rest = part ++ behind) :
    value = [c] ∧ part = quotedChar hidden c := by
  rcases quotedChar_cases hidden c with ⟨a, ha, hc⟩ | hc | ⟨hc, hasis⟩
  · -- a letter: the longer escapes begin with other ones
    obtain ⟨hbyte, hbraces, hfeed⟩ := ne_of_letterEscape? ha
    rw [hc, List.cons_append, List.cons_append, List.nil_append] at heq
    rw [hc]
    cases h with
    | plain _ hslash _ => exact absurd (List.cons.inj heq).1.symm hslash
    | letter hb =>
      obtain ⟨rfl, -⟩ := List.cons.inj (List.cons.inj heq).2
      rw [ha] at hb
      exact ⟨by rw [Option.some.inj hb], rfl⟩
    | byte => exact absurd (List.cons.inj (List.cons.inj heq).2).1 hbyte
    | braces => exact absurd (List.cons.inj (List.cons.inj heq).2).1 hbraces
    | continued => exact absurd (List.cons.inj (List.cons.inj heq).2).1 hfeed
  · -- a code point: both ways its digits end at the first closing brace
    rw [hc] at heq ⊢
    simp only [List.cons_append, List.append_assoc, List.nil_append] at heq
    cases h with
    | plain _ hslash _ => exact absurd (List.cons.inj heq).1.symm hslash
    | letter hb => exact absurd (List.cons.inj (List.cons.inj heq).2).1.symm (ne_of_letterEscape? hb).2.1
    | byte => exact absurd (List.cons.inj (List.cons.inj heq).2).1 (by decide)
    | continued => exact absurd (List.cons.inj (List.cons.inj heq).2).1 (by decide)
    | @braces d digits hd =>
      simp only [List.cons_append, List.append_assoc, List.nil_append, List.cons.injEq, true_and] at heq
      have hdigits := eq_of_append_brace (brace_not_mem_hexDigits c.toNat) (brace_not_mem hd) heq
      rw [← hdigits, codePoint?_hexDigits] at hd
      exact ⟨by rw [Option.some.inj hd], by rw [hdigits]⟩
  · -- the character itself, which is no backslash
    rw [hc] at heq ⊢
    cases h with
    | plain =>
      rw [(List.cons.inj heq).1]
      exact ⟨rfl, rfl⟩
    | _ => exact absurd (List.cons.inj heq).1 hasis.ne_slash

/-- No part is empty, and none begins with a quote. -/
theorem Spells.head (h : Spells value part) : ∃ a rest, part = a :: rest ∧ a ≠ '"' := by
  cases h with
  | plain hquote _ _ => exact ⟨_, _, rfl, hquote⟩
  | _ => exact ⟨_, _, rfl, by decide⟩

/-- What spells anything in front of a quote, where quoted characters stand in front of one, are these characters. -/
theorem SpellsAll.eq_flatMap (h : SpellsAll value parts) : ∀ {cs : List Char},
    cs.flatMap (quotedChar hidden) ++ '"' :: rest = parts ++ '"' :: behind →
    value = cs ∧ parts = cs.flatMap (quotedChar hidden) := by
  induction h with
  | nil =>
    intro cs heq
    cases cs with
    | nil => exact ⟨rfl, rfl⟩
    | cons c cs =>
      have hfirst : Spells [c] (quotedChar hidden c) := spells_quotedChar c
      obtain ⟨a, more, ha, hne⟩ := hfirst.head
      rw [List.flatMap_cons, ha] at heq
      exact absurd (List.cons.inj heq).1 hne
  | @cons value part values parts hspells _ ih =>
    intro cs heq
    cases cs with
    | nil =>
      obtain ⟨a, more, ha, hne⟩ := hspells.head
      rw [ha] at heq
      exact absurd (List.cons.inj heq).1.symm hne
    | cons c cs =>
      rw [List.flatMap_cons, List.append_assoc, List.append_assoc] at heq
      obtain ⟨hvalue, hpart⟩ := hspells.eq_quotedChar heq
      rw [hpart, List.append_cancel_left_eq] at heq
      obtain ⟨hvalues, hparts⟩ := ih heq
      rw [hvalue, hvalues, hpart, hparts]
      exact ⟨rfl, rfl⟩

/-- **No literal that begins where a quoted text stands is another one**, whatever stands behind. -/
theorem IsSpelling.eq_quotedChars (h : IsSpelling value text) {cs : List Char}
    (heq : quotedChars hidden cs ++ rest = text ++ behind) :
    value = cs ∧ text = quotedChars hidden cs ∧ behind = rest := by
  obtain ⟨parts, hparts, rfl⟩ := h
  have hbody : cs.flatMap (quotedChar hidden) ++ '"' :: rest = parts ++ '"' :: behind := by
    simpa [quotedChars] using heq
  obtain ⟨hvalue, hsame⟩ := hparts.eq_flatMap hbody
  refine ⟨hvalue, by rw [hsame]; rfl, ?_⟩
  rw [hsame] at hbody
  exact (List.cons.inj (List.append_cancel_left hbody)).2.symm

/-! ## Quotes and line ends inside -/

/-- A part puts no quote in front that is not escaped. -/
theorem Spells.quote_not_mem (h : Spells value part) (hbehind : '"' ∉ unescaped behind) :
    '"' ∉ unescaped (part ++ behind) := by
  cases h with
  | plain hquote hslash _ =>
    exact quote_not_mem_unescaped_append (List.forall_mem_singleton.mpr ⟨hquote, hslash⟩) hbehind
  | letter _ =>
    rw [List.cons_append, List.singleton_append, unescaped_escape]
    exact hbehind
  | byte ha hb _ =>
    rw [List.cons_append, List.cons_append, unescaped_escape]
    refine quote_not_mem_unescaped_append ?_ hbehind
    exact List.forall_mem_cons.mpr ⟨ne_of_hexValue? ha, List.forall_mem_singleton.mpr (ne_of_hexValue? hb)⟩
  | braces hdigits =>
    rw [List.cons_append, List.cons_append, unescaped_escape]
    refine quote_not_mem_unescaped_append (List.forall_mem_cons.mpr ⟨by decide, ?_⟩) hbehind
    refine List.forall_mem_append.mpr ⟨fun a ha => ?_, List.forall_mem_singleton.mpr (by decide)⟩
    rcases forall_mem_of_codePoint? hdigits a ha with rfl | ⟨d, hd⟩
    · decide
    · exact ne_of_hexValue? hd
  | continued hblanks =>
    rw [List.cons_append, List.cons_append, unescaped_escape]
    refine quote_not_mem_unescaped_append (fun b hb => ?_) hbehind
    have hblank := hblanks b hb
    constructor
    all_goals
      rintro rfl
      cases hblank

/-- **Between the quotes of a spelling stands no quote** that is not escaped. -/
theorem IsSpelling.exists_body (h : IsSpelling value text) :
    ∃ body, text = '"' :: (body ++ ['"']) ∧ '"' ∉ unescaped body := by
  obtain ⟨parts, hparts, rfl⟩ := h
  refine ⟨parts, rfl, ?_⟩
  induction hparts with
  | nil => exact List.not_mem_nil
  | cons hspells _ ih => exact hspells.quote_not_mem ih

/-- Whether a character ends a line or is refused in a comment. -/
def breaksLine (c : Char) : Bool := c == '\n' || c == '\r'

/-- No quoted character breaks a line. -/
theorem forall_mem_quotedChar (c : Char) : ∀ a ∈ quotedChar hidden c, breaksLine a = false := by
  rcases quotedChar_cases hidden c with ⟨a, ha, heq⟩ | heq | ⟨heq, hasis⟩
  · rw [heq]
    refine List.forall_mem_cons.mpr ⟨by decide, List.forall_mem_singleton.mpr (eq_false_of_ne_true fun hbreaks => ?_)⟩
    rcases Bool.or_eq_true_iff.mp hbreaks with hfeed | hreturn
    · rw [eq_of_beq hfeed] at ha
      cases ha
    · rw [eq_of_beq hreturn] at ha
      cases ha
  · rw [heq]
    refine List.forall_mem_cons.mpr ⟨by decide, List.forall_mem_cons.mpr ⟨by decide, List.forall_mem_cons.mpr
      ⟨by decide, List.forall_mem_append.mpr ⟨?_, List.forall_mem_singleton.mpr (by decide)⟩⟩⟩⟩
    exact forall_mem_hexDigits (by decide) c.toNat
  · rw [heq]
    refine List.forall_mem_singleton.mpr (Bool.or_eq_false_iff.mpr ⟨?_, ?_⟩)
    · exact beq_false_of_ne hasis.ne_feed
    · exact beq_false_of_ne hasis.ne_return

/-- The literal of a text where some characters are hidden. -/
def quotedBy (hidden : Char → Bool) (s : String) : String := String.ofList (quotedChars hidden s.toList)

/-- **A quoted text breaks no line.** -/
theorem lacks_breaksLine_quotedBy (s : String) : Lacks breaksLine (quotedBy hidden s) := by
  intro a ha
  rw [quotedBy, String.toList_ofList, quotedChars, List.mem_cons, List.mem_append, List.mem_flatMap,
    List.mem_singleton] at ha
  rcases ha with rfl | ⟨c, -, ha⟩ | rfl
  · rfl
  · exact forall_mem_quotedChar c a ha
  · rfl

/-! ## The lines with literals -/

/-- A line of code holds the literal of a value: behind a front stands a literal, every literal that is read from there
has that value and leaves the same behind it, and the line is not broken. -/
structure HoldsLiteral (front value behind text : String) : Prop where
  spells : ∃ literal, IsSpelling value.toList literal ∧ text.toList = front.toList ++ (literal ++ behind.toList)
  alone : ∀ other literal rest, IsSpelling other literal → text.toList = front.toList ++ (literal ++ rest) →
    other = value.toList ∧ rest = behind.toList
  unbroken : Lacks breaksLine text

theorem holdsLiteral_quotedBy {front behind : String} (hfront : Lacks breaksLine front)
    (hbehind : Lacks breaksLine behind) (hidden : Char → Bool) (s : String) :
    HoldsLiteral front s behind (front ++ quotedBy hidden s ++ behind) := by
  have hchars : (front ++ quotedBy hidden s ++ behind).toList =
      front.toList ++ (quotedChars hidden s.toList ++ behind.toList) := by
    rw [String.toList_append, String.toList_append, quotedBy, String.toList_ofList, List.append_assoc]
  refine ⟨⟨_, quotedChars_isSpelling s.toList, hchars⟩, fun other literal rest hliteral heq => ?_, ?_⟩
  · rw [hchars, List.append_cancel_left_eq] at heq
    obtain ⟨hvalue, -, hrest⟩ := hliteral.eq_quotedChars heq
    exact ⟨hvalue, hrest⟩
  · exact (hfront.append (lacks_breaksLine_quotedBy s)).append hbehind

/-- The lines of a method where some characters are hidden. -/
def Method.linesBy (hidden : Char → Bool) (method : Method) : List Line :=
  [ ⟨2, "/// Configuration " ++ method.gives.addressWord ++ ": " ++ quotedBy hidden method.address.text⟩,
    ⟨2, "pub fn " ++ method.name ++ "(&self) -> " ++ method.gives.type ++ " \x7b"⟩,
    ⟨3, method.gives.body (quotedBy hidden method.address.text)⟩,
    ⟨2, "\x7d"⟩ ]

/-- The value that the lookup by raw key reads, where some characters are hidden. -/
def lookupBodyBy (hidden : Char → Bool) (address : Address) : String :=
  if address.stem.isEmpty then "self.provider.get(key)"
  else "self.provider.get(&[" ++ quotedBy hidden address.stem ++ ", key].concat())"

/-- The comment of a struct where some characters are hidden. -/
def Struct.commentBy (hidden : Char → Bool) (struct : Struct) : String :=
  if struct.isRoot then "/// Typed view over the whole configuration document."
  else "/// Accessors under " ++ quotedBy hidden struct.address.text ++ "."

/-- The comment of a method ends with the literal of its address, and where the method reads there, the call in its body
holds that literal, too. -/
structure Method.HoldsLiterals (method : Method) (comment signature body closing : Line) : Prop where
  comment : HoldsLiteral ("/// Configuration " ++ method.gives.addressWord ++ ": ") method.address.text "" comment.text
  body : ∀ {type before behind : String}, method.gives.Reads type before behind →
    HoldsLiteral before method.address.text behind body.text
  signature : signature.text = "pub fn " ++ method.name ++ "(&self) -> " ++ method.gives.type ++ " \x7b"
  closing : closing.text = "\x7d"

theorem Method.exists_holdsLiterals (hidden : Char → Bool) (method : Method) : ∃ comment signature body closing,
    method.linesBy hidden = [comment, signature, body, closing] ∧
      method.HoldsLiterals comment signature body closing := by
  have hword : Lacks breaksLine method.gives.addressWord := by
    cases method.gives <;> exact lacks_ofList (by decide)
  have hopening : Lacks breaksLine "/// Configuration " := lacks_ofList (by decide)
  have hcolon : Lacks breaksLine ": " := lacks_ofList (by decide)
  have hend : Lacks breaksLine "" := lacks_ofList (by decide)
  refine ⟨_, _, _, _, rfl, ?_, ?_, rfl, rfl⟩
  · have hholds := holdsLiteral_quotedBy ((hopening.append hword).append hcolon) hend hidden method.address.text
    rwa [String.append_empty] at hholds
  · intro type before behind hreads
    obtain ⟨name, address, gives⟩ := method
    cases hreads
    all_goals exact holdsLiteral_quotedBy (lacks_ofList (by decide)) (lacks_ofList (by decide)) hidden address.text

/-! ## The literals of keys -/

/-- **The literal of an address spells the text of the address, and nothing else**, whichever characters are hidden: it
has no quote inside that is not escaped, and breaks no line. So it ends where it is written to end, wherever it stands:
in the comment of a method and in its body, behind the words of the lookup, and in the comment of a struct. -/
theorem keyLiterals_spell (hidden : Char → Bool) :
    (∀ address : Address,
      (∀ value, IsSpelling value (quotedBy hidden address.text).toList ↔ value = address.text.toList) ∧
      (∃ body, (quotedBy hidden address.text).toList = '"' :: (body ++ ['"']) ∧ '"' ∉ unescaped body) ∧
      Lacks breaksLine (quotedBy hidden address.text)) ∧
    (∀ method : Method, ∃ comment signature body closing,
      method.linesBy hidden = [comment, signature, body, closing] ∧
        method.HoldsLiterals comment signature body closing) ∧
    (∀ address : Address, address ≠ .root →
      HoldsLiteral "self.provider.get(&[" address.stem ", key].concat())" (lookupBodyBy hidden address)) ∧
    (∀ struct : Struct, struct.isRoot = false →
      HoldsLiteral "/// Accessors under " struct.address.text "." (struct.commentBy hidden)) ∧
    (∀ method : Method, method.linesBy isHidden = method.lines) ∧
    (∀ address : Address, lookupBodyBy isHidden address = lookupBody address) ∧
    (∀ struct : Struct, struct.commentBy isHidden = struct.comment) := by
  refine ⟨fun address => ⟨fun value => ⟨fun h => ?_, ?_⟩, ?_, lacks_breaksLine_quotedBy address.text⟩,
    Method.exists_holdsLiterals hidden, fun address hne => ?_, fun struct hinner => ?_, fun _ => rfl, fun _ => rfl,
    fun _ => rfl⟩
  · exact (h.eq_quotedChars (congrArg (· ++ []) String.toList_ofList.symm)).1
  · rintro rfl
    rw [quotedBy, String.toList_ofList]
    exact quotedChars_isSpelling address.text.toList
  · rw [quotedBy, String.toList_ofList]
    exact (quotedChars_isSpelling address.text.toList).exists_body
  · have hstem : ¬address.stem.isEmpty = true := by
      rwa [Address.isEmpty_stem, Address.isRoot_iff]
    rw [lookupBodyBy, if_neg hstem]
    exact holdsLiteral_quotedBy (lacks_ofList (by decide)) (lacks_ofList (by decide)) hidden address.stem
  · rw [Struct.commentBy, hinner, if_neg Bool.false_ne_true]
    exact holdsLiteral_quotedBy (lacks_ofList (by decide)) (lacks_ofList (by decide)) hidden struct.address.text

/-- Keys that look like the ends and the escapes of literals, where all letters are hidden. -/
theorem keyLiterals_spell_hostile :
    let address : Address := ⟨["\", key].concat())\n", "\\u\x7b41\x7d\r"]⟩
    let method : Method := ⟨"n", address, .list⟩
    let struct : Struct := ⟨"S", false, address, [method], true⟩
    address ≠ .root ∧ struct.isRoot = false ∧
      HoldsLiteral "self.provider.get(&[" address.stem ", key].concat())" (lookupBodyBy Char.isAlpha address) ∧
      HoldsLiteral "/// Accessors under " address.text "." (struct.commentBy Char.isAlpha) ∧
      ∃ body ∈ method.linesBy Char.isAlpha, HoldsLiteral "self.provider.children(" address.text ")" body.text := by
  intro address method struct
  obtain ⟨-, hmethods, hlookup, hcomment, -⟩ := keyLiterals_spell Char.isAlpha
  obtain ⟨_, _, body, _, hlines, hliterals⟩ := hmethods method
  have hne : address ≠ .root := by decide
  refine ⟨hne, rfl, hlookup address hne, hcomment struct rfl, body, ?_, hliterals.body .list⟩
  rw [hlines]
  simp

example : quotedBy Char.isAlpha "\"u\x7b4\r" = "\"\\\"\\u\x7b75\x7d\x7b4\\r\"" := by decide

end TypedSettings.Structs
