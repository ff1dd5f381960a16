import ApiSchema.Config.Basic

/-!
# Written documents are read back

Each scanner undoes the writer of its kind of value: it answers the value that was written, and
stops right behind it. For a number this needs that no digit follows, so what may follow a value is
restricted to the end of the text and the separators of lists and records.
-/

namespace ApiSchema.Json

open List

variable {α β ρ : Type} {scan : Scan α} {a : α} {c : Char}
  {chars rest written after digits : List Char} {count n : Nat} {first : Bool}

/-! ### Running scanners -/

/-- A scanner that answers hands the rest to the next one. -/
theorem bind_of_ok {next : α → Scan β} (h : scan chars = .ok (a, rest)) :
    (scan >>= next) chars = next a rest := by
  simp only [bind, StateT.bind, h, Except.bind]

/-- A scanner that only answers leaves the text as it is. -/
theorem pure_run : (pure a : Scan α) chars = .ok (a, chars) := rfl

/-- The text that is left can be asked for. -/
theorem get_run : (get : Scan (List Char)) chars = .ok (chars, chars) := rfl

/-- The text that is left can be replaced. -/
theorem set_run : (set rest : Scan PUnit) chars = .ok ((), rest) := rfl

/-- One character is passed over. -/
theorem skipOne_cons : skipOne (c :: rest) = .ok ((), rest) := rfl

/-- An outcome without a text leaves the text as it is. -/
theorem lift_run {outcome : Except Fault α} (h : outcome = .ok a) :
    (liftM outcome : Scan α) chars = .ok (a, chars) := by
  subst h
  rfl

/-- The next character is answered and left there, unless it is a blank. -/
theorem peek?_cons (h : isBlank c = false) : peek? (c :: rest) = .ok (some c, c :: rest) := by
  rw [peek?, bind_of_ok get_run, dropWhile_cons_of_neg (by simp [h]), bind_of_ok set_run]
  rfl

/-- So it is where a character has to follow. -/
theorem peek_cons (h : isBlank c = false) : peek (c :: rest) = .ok (c, c :: rest) := by
  rw [peek, bind_of_ok (peek?_cons h)]
  rfl

/-- A colon is passed over. -/
theorem expectColon_cons : expectColon (':' :: rest) = .ok ((), rest) := rfl

/-! ### Quoted texts -/

/-- A hexadecimal digit is read back. -/
theorem hexValue?_hexDigit (h : n < 16) : hexValue? (hexDigit n) = some n := by
  revert n
  decide

/-- The letter of an escape leads back to the character. -/
theorem escaped?_of_escapeLetter? {letter : Char} (h : escapeLetter? c = some letter) :
    escaped? letter = some c := by
  unfold escapeLetter? at h
  repeat' split at h
  all_goals cases h
  all_goals
    subst_vars
    rfl

/-- The code of a control character is read as the character. -/
theorem scanCoded_control (h : c.toNat < 0x20) :
    scanCoded ('0' :: '0' :: hexDigit (c.toNat / 16) :: hexDigit (c.toNat % 16) :: rest) =
      .ok (c, rest) := by
  have hzero : hexValue? '0' = some 0 := rfl
  have hhigh := hexValue?_hexDigit (show c.toNat / 16 < 16 by omega)
  have hlow := hexValue?_hexDigit (show c.toNat % 16 < 16 by omega)
  have hcode : ((0 * 16 + 0) * 16 + c.toNat / 16) * 16 + c.toNat % 16 = c.toNat := by omega
  have htrailing : isTrailing c.toNat = false := by
    simp only [isTrailing, Bool.and_eq_false_iff, decide_eq_false_iff_not]
    omega
  have hleading : isLeading c.toNat = false := by
    simp only [isLeading, Bool.and_eq_false_iff, decide_eq_false_iff_not]
    omega
  simp only [scanCoded, scanCode, hzero, hhigh, hlow, hcode, htrailing, hleading,
    Bool.false_eq_true, if_false, Char.ofNat_toNat]

/-- After a backslash, reading goes on with what the escape leaves. -/
theorem decode_escape (h : scanEscape rest = .ok (c, after)) :
    decode ('\\' :: rest) = (decode after).map fun answer => (c :: answer.1, answer.2) := by
  rw [decode, if_neg (by decide), if_pos rfl]
  split
  · next hfault => simp [h] at hfault
  · next hok =>
    simp only [h, Except.ok.injEq, Prod.mk.injEq] at hok
    obtain ⟨rfl, rfl⟩ := hok
    rfl

/-- A written character is read back. -/
theorem decode_encodeChar (c : Char) :
    decode (encodeChar c ++ rest) = (decode rest).map fun answer => (c :: answer.1, answer.2) := by
  unfold encodeChar
  split
  · next letter hletter =>
    have hescape : scanEscape (letter :: rest) = .ok (c, rest) := by
      rw [scanEscape, escaped?_of_escapeLetter? hletter]
    exact decode_escape hescape
  · next hnone =>
    split
    · next hcontrol => exact decode_escape (scanCoded_control hcontrol)
    · next hplain =>
      have hquote : c ≠ '"' := by
        rintro rfl
        simp [escapeLetter?] at hnone
      have hslash : c ≠ '\\' := by
        rintro rfl
        simp [escapeLetter?] at hnone
      rw [List.singleton_append, decode]
      simp only [hquote, hslash, hplain, if_false]

/-- A written text is read back up to its closing quote. -/
theorem decode_encode (text : List Char) :
    decode (text.flatMap encodeChar ++ '"' :: rest) = .ok (text, rest) := by
  induction text with
  | nil =>
    rw [flatMap_nil, nil_append, decode]
    rfl
  | cons c cs ih =>
    rw [flatMap_cons, append_assoc, decode_encodeChar, ih]
    rfl

/-- A written text is scanned back. -/
theorem scanText_encode (text : String) :
    scanText (text.toList.flatMap encodeChar ++ '"' :: rest) = .ok (text, rest) := by
  rw [scanText, bind_of_ok get_run, bind_of_ok (lift_run (decode_encode _))]
  dsimp only
  rw [bind_of_ok set_run, String.ofList_toList, pure_run]

/-- A quoted text begins with a quote and ends with one. -/
theorem quote_append (text : String) :
    quote text ++ rest = '"' :: (text.toList.flatMap encodeChar ++ '"' :: rest) := by
  simp [quote]

/-! ### Numerals -/

/-- More digits make no smaller number. -/
theorem le_ofDigitChars (digits : List Char) (n : Nat) : n ≤ Nat.ofDigitChars 10 digits n := by
  induction digits generalizing n with
  | nil => simp
  | cons c cs ih =>
    rw [Nat.ofDigitChars_cons]
    have := ih (10 * n + (c.toNat - '0'.toNat))
    omega

/-- Digits whose number has at most 64 bits are all taken in. -/
theorem addInteger_of_le (digits : List Char) (n : Nat)
    (h : Nat.ofDigitChars 10 digits n ≤ largest) :
    Scaled.addInteger ⟨n, 0⟩ digits = ⟨Nat.ofDigitChars 10 digits n, 0⟩ := by
  induction digits generalizing n with
  | nil => rfl
  | cons c cs ih =>
    have hnext : n * 10 + digitValue c = 10 * n + (c.toNat - '0'.toNat) := by
      simp [digitValue, Nat.mul_comm]
    rw [Nat.ofDigitChars_cons] at h ⊢
    have hfits := Nat.le_trans (le_ofDigitChars cs _) h
    rw [Scaled.addInteger, hnext, if_pos hfits, ih _ h]

/-- A written number other than zero does not begin with a zero. -/
theorem head?_toDigits (h : n ≠ 0) : (Nat.toDigits 10 n).head? ≠ some '0' := by
  induction n using Nat.base_induction 10 (by decide) with
  | single m hm =>
    rw [Nat.toDigits_of_lt_base hm]
    revert m
    decide
  | digit m k hk hm ih =>
    rw [← Nat.toDigits_append_toDigits (by decide) hm hk, head?_append,
      Option.or_of_isSome (isSome_head?.mpr Nat.toDigits_ne_nil)]
    exact ih (by omega)

/-- What may follow a value: the end of the text, or a separator. -/
def Closed (rest : List Char) : Prop := ∀ c ∈ rest.head?, c = ',' ∨ c = ']' ∨ c = '\x7d'

/-- Digits are taken up to the end of the number. -/
theorem spanDigits_append (hdigits : ∀ c ∈ digits, c.isDigit) (hrest : Closed rest) :
    spanDigits (digits ++ rest) = (digits, rest) := by
  have hstop : rest.takeWhile Char.isDigit = [] := by
    cases rest with
    | nil => rfl
    | cons c cs => rcases hrest c rfl with rfl | rfl | rfl <;> rfl
  have hkept : rest.dropWhile Char.isDigit = rest := by
    simpa [hstop] using takeWhile_append_dropWhile (p := Char.isDigit) (l := rest)
  rw [spanDigits, takeWhile_append_of_pos hdigits, dropWhile_append_of_pos hdigits,
    hstop, hkept, append_nil]

/-- A written number is read back. -/
theorem scanNumeral_toDigits (h : n ≤ largest) (hrest : Closed rest) :
    scanNumeral true (Nat.toDigits 10 n ++ rest) = .ok (.natural n, rest) := by
  have hspan : spanDigits (Nat.toDigits 10 n ++ rest) = (Nat.toDigits 10 n, rest) :=
    spanDigits_append (fun _ => Nat.isDigit_of_mem_toDigits (by decide) (by decide)) hrest
  have hvalue : Scaled.addInteger ⟨0, 0⟩ (Nat.toDigits 10 n) = ⟨n, 0⟩ := by
    rw [addInteger_of_le _ _ (by rwa [Nat.ofDigitChars_ten_toDigits]),
      Nat.ofDigitChars_ten_toDigits]
  have hend : scanAfterInteger true ⟨n, 0⟩ rest = .ok (.natural n, rest) := by
    cases rest with
    | nil => rfl
    | cons c cs => rcases hrest c rfl with rfl | rfl | rfl <;> rfl
  unfold scanNumeral
  rw [hspan]
  split
  · next hnone => exact absurd (Prod.mk.inj hnone).1 Nat.toDigits_ne_nil
  · next hnone => exact absurd (Prod.mk.inj hnone).1 Nat.toDigits_ne_nil
  · next hzero =>
    have hdigits := (Prod.mk.inj hzero).1
    by_cases hn : n = 0
    · simp [hn] at hdigits
    · exact absurd (by rw [hdigits]; rfl) (head?_toDigits hn)
  · next hsome =>
    obtain ⟨rfl, rfl⟩ := Prod.mk.inj hsome
    rw [hvalue, hend]

/-! ### Values -/

/-- Before anything that may follow, a scanner reads the written text as the value, and no
further. -/
def Reads (scan : Scan α) (written : List Char) (a : α) : Prop :=
  ∀ rest, Closed rest → scan (written ++ rest) = .ok (a, rest)

/-- What is made of the value is read with it. -/
theorem Reads.map (h : Reads scan written a) (f : α → β) :
    Reads (do return f (← scan)) written (f a) := by
  intro rest hrest
  exact bind_of_ok (h rest hrest)

/-- A text that is read by a scanner and nothing else is the document of the value. -/
theorem parse_of_reads (h : Reads scan written a) : parse scan (String.ofList written) = .ok a := by
  have hrun : scan.run (String.ofList written).toList = .ok (a, []) := by
    rw [String.toList_ofList, ← append_nil written]
    exact h [] (by simp [Closed])
  rw [parse, hrun]
  rfl

/-- A flag is read back. -/
theorem reads_flag (flag : Bool) : Reads scanBoolean (Options.renderFlag flag) flag := by
  intro rest _
  cases flag <;> rfl

/-- A quoted text is read back. -/
theorem reads_quote (text : String) : Reads scanString (quote text) text := by
  intro rest _
  rw [quote_append]
  exact scanText_encode text

/-- A limit is read back, and so is that there is none. -/
theorem reads_limit (limit : Option UInt64) :
    Reads (scanOptional scanUnsigned) (Options.renderLimit limit) limit := by
  intro rest hrest
  cases limit with
  | none => rfl
  | some limit =>
    have hlimit : limit.toNat ≤ largest := Nat.le_sub_one_of_lt limit.toNat_lt
    have hnumeral := scanNumeral_toDigits hlimit hrest
    -- The text begins with a digit, so no blank is passed over, and it is not `null`.
    obtain ⟨c, cs, hwritten⟩ : ∃ c cs, Nat.toDigits 10 limit.toNat = c :: cs :=
      exists_cons_of_ne_nil Nat.toDigits_ne_nil
    have hmem : c ∈ Nat.toDigits 10 limit.toNat := by simp [hwritten]
    have hdigit : c.isDigit := Nat.isDigit_of_mem_toDigits (by decide) (by decide) hmem
    have hblank : isBlank c = false := by
      simp only [isBlank, Bool.or_eq_false_iff, decide_eq_false_iff_not]
      refine ⟨⟨⟨?_, ?_⟩, ?_⟩, ?_⟩ <;> rintro rfl <;> cases hdigit
    have hnull : some c ≠ some 'n' := by
      rintro ⟨⟩
      cases hdigit
    rw [hwritten, cons_append] at hnumeral
    have hunsigned : scanUnsigned (c :: (cs ++ rest)) = .ok (limit, rest) := by
      rw [scanUnsigned, bind_of_ok (peek_cons hblank), if_pos hdigit, bind_of_ok get_run,
        bind_of_ok (lift_run hnumeral)]
      dsimp only
      rw [bind_of_ok set_run, pure_run]
      simp
    rw [Options.renderLimit, hwritten, cons_append, scanOptional,
      bind_of_ok (peek?_cons hblank), if_neg hnull, map_eq_pure_bind]
    exact bind_of_ok hunsigned

/-! ### Lists -/

/-- In a list there is a comma before each word but the first. -/
theorem intercalate_cons (word : List Char) (words : List (List Char)) :
    [','].intercalate (word :: words) = word ++ words.flatMap (',' :: ·) := by
  induction words generalizing word with
  | nil => simp [List.intercalate]
  | cons next words ih =>
    rw [intercalate_cons_cons, ih]
    simp

/-- One more element is read back before the others. -/
theorem scanElements_cons {text : String} {texts : List String}
    (hmore : hasElement first chars = .ok (true, quote text ++ after)) (hafter : Closed after)
    (htexts : scanElements scanString count false after = .ok (texts, rest)) :
    scanElements scanString (count + 1) first chars = .ok (text :: texts, rest) := by
  rw [scanElements, bind_of_ok hmore, if_pos rfl, bind_of_ok (reads_quote text after hafter),
    bind_of_ok htexts, pure_run]

/-- What follows an element of a list: the other elements and the end. -/
def afterElement (texts : List String) (rest : List Char) : List Char :=
  (texts.map quote).flatMap (',' :: ·) ++ ']' :: rest

/-- After an element a comma or the end of the list follows. -/
theorem closed_afterElement (texts : List String) : Closed (afterElement texts rest) := by
  cases texts <;> simp [afterElement, Closed]

/-- What follows an element is longer than the list of the other elements. -/
theorem length_lt_afterElement (texts : List String) :
    texts.length < (afterElement texts rest).length := by
  induction texts with
  | nil => simp [afterElement]
  | cons text texts ih =>
    simp only [afterElement, map_cons, flatMap_cons, length_append,
      length_cons] at ih ⊢
    omega

/-- The elements after the first one are read back, if there is room for them. -/
theorem scanElements_afterElement (texts : List String) (h : texts.length < count) :
    scanElements scanString count false (afterElement texts rest) = .ok (texts, ']' :: rest) := by
  induction texts generalizing count with
  | nil =>
    obtain ⟨count, rfl⟩ : ∃ n, count = n + 1 := ⟨count - 1, by omega⟩
    rfl
  | cons text texts ih =>
    obtain ⟨count, rfl⟩ : ∃ n, count = n + 1 := ⟨count - 1, by omega⟩
    have hmore : hasElement false (afterElement (text :: texts) rest) =
        .ok (true, quote text ++ afterElement texts rest) := by
      rw [afterElement, map_cons, flatMap_cons, append_assoc]
      rfl
    exact scanElements_cons hmore (closed_afterElement texts) (ih (by simpa using h))

/-- The list of files is read back. -/
theorem reads_files (files : List String) :
    Reads (scanList scanString) (Config.writeFiles files) files := by
  intro rest _
  cases files with
  | nil => rfl
  | cons file files =>
    have hwritten : Config.writeFiles (file :: files) ++ rest =
        '[' :: (quote file ++ afterElement files rest) := by
      simp [Config.writeFiles, intercalate_cons, afterElement]
    have hroom : files.length < (quote file ++ afterElement files rest).length := by
      rw [length_append]
      exact Nat.lt_add_left _ (length_lt_afterElement files)
    have hmore : hasElement true (quote file ++ afterElement files rest) =
        .ok (true, quote file ++ afterElement files rest) := rfl
    have helements := scanElements_cons hmore (closed_afterElement files)
      (scanElements_afterElement files hroom)
    rw [hwritten, scanList, bind_of_ok (peek_cons rfl), if_pos rfl, bind_of_ok skipOne_cons,
      bind_of_ok get_run, bind_of_ok helements]
    rfl

/-! ### Records -/

/-- An entry of a known field that was not read before is taken into the record. -/
theorem scanEntries_cons {fields : List (Field ρ)} {field : Field ρ} {record next : ρ}
    {seen : List String}
    (hmore : hasEntry first chars = .ok (true, quote field.name ++ ':' :: (written ++ rest)))
    (hfield : fields.find? (fun other => other.name = field.name) = some field)
    (hseen : field.name ∉ seen) (hvalue : Reads (field.scan record) written next)
    (hrest : Closed rest) :
    scanEntries fields (count + 1) first seen record chars =
      scanEntries fields count false (field.name :: seen) next rest := by
  rw [scanEntries, bind_of_ok hmore, if_pos rfl, quote_append, bind_of_ok skipOne_cons,
    bind_of_ok (scanText_encode _), hfield]
  dsimp only
  rw [if_neg hseen, bind_of_ok expectColon_cons, bind_of_ok (hvalue rest hrest)]

/-- A record of two fields is read back from its entries. -/
theorem reads_record {one two : Field ρ} {default half whole : ρ} {left right : List Char}
    (hnames : one.name ≠ two.name) (hone : Reads (one.scan default) left half)
    (htwo : Reads (two.scan half) right whole) :
    Reads (scanRecord [one, two] default)
      ('\x7b' :: quote one.name ++ ':' :: left ++ ',' :: quote two.name ++ ':' :: right ++ ['\x7d'])
      whole := by
  intro rest _
  have hsecond : Closed ('\x7d' :: rest) := by simp [Closed]
  have hfirst : Closed (',' :: (quote two.name ++ ':' :: (right ++ '\x7d' :: rest))) := by
    simp [Closed]
  have hentries (count : Nat) :
      scanEntries [one, two] (count + 3) true [] default
          (quote one.name ++ ':' :: (left ++ ',' :: (quote two.name ++
            ':' :: (right ++ '\x7d' :: rest)))) = .ok (whole, '\x7d' :: rest) := by
    rw [scanEntries_cons rfl (by simp) (by simp) hone hfirst,
      scanEntries_cons rfl (by simp [hnames]) (by simp [hnames.symm]) htwo hsecond]
    rfl
  -- Each entry has at least its two quotes, so there is room for both and the end.
  have hroom (chars : List Char) : ∃ count, (quote one.name ++ chars).length + 1 = count + 3 :=
    ⟨(one.name.toList.flatMap encodeChar ++ chars).length, by simp [quote]; omega⟩
  obtain ⟨count, hcount⟩ := hroom (':' :: (left ++ ',' :: (quote two.name ++
    ':' :: (right ++ '\x7d' :: rest))))
  simp only [cons_append, append_assoc, nil_append]
  rw [scanRecord, bind_of_ok (peek_cons rfl), if_neg (by decide), if_pos rfl,
    bind_of_ok skipOne_cons, bind_of_ok get_run, hcount, bind_of_ok (hentries count)]
  rfl

end ApiSchema.Json

namespace ApiSchema

/-- Options are read back. -/
theorem Options.reads (options : Options) : Json.Reads scan options.write options :=
  Json.reads_record (by decide) ((Json.reads_flag options.designTime).map _)
    ((Json.reads_limit options.maxDiagnostics).map _)

/-- A configuration is read back. -/
theorem Config.reads (config : Config) : Json.Reads scan config.write config :=
  Json.reads_record (by decide) (config.options.reads.map _) ((Json.reads_files config.files).map _)

/-- Every configuration is the one in its document, and so are options on their own. -/
theorem Config.parse_render :
    (∀ config : Config, parse config.render = .ok config) ∧
      ∀ options : Options, Options.parse options.render = .ok options :=
  ⟨fun config => Json.parse_of_reads config.reads, fun options => Json.parse_of_reads options.reads⟩

end ApiSchema
