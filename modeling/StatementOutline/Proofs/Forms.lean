import StatementOutline.Proofs.Overlays
import StatementOutline.Proofs.Spelling
import StatementOutline.Settings.Json

/-!
# The forms of settings

Settings can be written as a JSON object and held by named texts. Both forms are read back as the
settings, in whatever order the fields stand, however their texts are spelled and whatever white
space is around the names and numerals. A limit that is too large for a word is refused in both.

* `ofJson?_perm`, `ofJson?_append`: the order of fields and unknown ones do not matter;
* `overlay_of_holds`: texts that hold settings are read as these;
* `ofJson?_of_tooLarge`, `overlay_of_tooLarge`: a limit that is too large is refused;
* `forms_read_back`: all of it for texts.
-/

namespace StatementOutline

namespace Text

variable {n : Nat} {c : Char} {text name : String}

/-! ## Numerals -/

theorem isDigit_of_mem_digits (h : c ∈ digits 10 n) : c.isDigit = true := by
  have digit : ∀ d < 10, (Nat.digitChar d).isDigit = true := by decide
  induction n using Nat.strongRecOn with
  | ind n ih =>
    rw [digits] at h
    split at h
    · next small =>
      obtain rfl := List.mem_singleton.1 h
      exact digit n (by omega)
    · next large =>
      obtain h | h := List.mem_append.1 h
      · exact ih (n / 10) (by omega) h
      · obtain rfl := List.mem_singleton.1 h
        exact digit (n % 10) (Nat.mod_lt n (by decide))

/-- A numeral starts with a zero only if it is that of zero. -/
theorem head?_digits (n : Nat) : ∃ c, (digits 10 n).head? = some c ∧ (c = '0' → n = 0) := by
  have zero : ∀ d < 10, Nat.digitChar d = '0' → d = 0 := by decide
  induction n using Nat.strongRecOn with
  | ind n ih =>
    rw [digits]
    split
    · next small => exact ⟨_, rfl, zero n (by omega)⟩
    · next large =>
      obtain ⟨c, hc, start⟩ := ih (n / 10) (by omega)
      refine ⟨c, by rw [List.head?_append, hc]; rfl, fun h => ?_⟩
      have := start h
      omega

theorem digits_ne_nil (n : Nat) : digits 10 n ≠ [] := by
  obtain ⟨c, hc, -⟩ := head?_digits n
  intro empty
  rw [empty] at hc
  cases hc

/-- The digits of a number, with or without a sign and with any number of zeros, spell it. -/
theorem counts_digits (n zeros : Nat) (sign : List Char) (hsign : sign = [] ∨ sign = ['+']) :
    Counts (sign ++ List.replicate zeros '0' ++ digits 10 n) n := by
  refine ⟨List.replicate zeros '0' ++ digits 10 n, ?_, ?_, ?_, ?_⟩
  · obtain rfl | rfl := hsign
    · exact .inl rfl
    · exact .inr rfl
  · exact List.append_ne_nil_of_right_ne_nil _ (digits_ne_nil n)
  · intro d hd
    obtain h | h := List.mem_append.1 hd
    · rw [List.eq_of_mem_replicate h]
      rfl
    · exact isDigit_of_mem_digits h
  · rw [value_zeros, value_digits]

/-- The numeral of a number as a literal. -/
def numeral (n : Nat) : Literal where
  sign := .absent
  whole := digits 10 n
  fraction := []
  capital := false
  exponentSign := .absent
  exponent := []
  whole_ne_nil := digits_ne_nil n
  digits := by simpa using fun c => isDigit_of_mem_digits

theorem text_numeral (n : Nat) : (numeral n).text = decimal n := by
  simp [Literal.text, Literal.chars, Literal.fractionChars, Literal.exponentChars, numeral,
    Sign.chars, decimal]

theorem proper_numeral (n : Nat) : Json.Proper (numeral n) := by
  obtain ⟨c, hc, start⟩ := head?_digits n
  refine ⟨by rintro ⟨⟩, ?_⟩
  by_cases zero : n = 0
  · left
    show digits 10 n = ['0']
    rw [zero, digits, if_pos (by decide)]
    rfl
  · right
    show (digits 10 n).head? ≠ some '0'
    rw [hc]
    intro h
    exact zero (start (Option.some.inj h))

/-- The text spells a number that is too large for a word, with or without a sign, a fraction and an
exponent. -/
def TooLarge (text : String) : Prop :=
  ∃ ℓ : Literal, text = ℓ.text ∧ 2 ^ 64 ≤ ℓ.number

/-- A text without a fraction and an exponent is a literal too. -/
theorem tooLarge_of_counts (h : Counts text.toList n) (large : 2 ^ 64 ≤ n) : TooLarge text := by
  obtain ⟨sign, ds, written, some, digits⟩ : ∃ (sign : Sign) (ds : List Char),
      text.toList = sign.chars ++ ds ∧ ds ≠ [] ∧ ∀ d ∈ ds, d.isDigit = true := by
    obtain ⟨ds, h | h, some, digits, -⟩ := h
    · exact ⟨.absent, ds, h, some, digits⟩
    · exact ⟨.plus, ds, h, some, digits⟩
  let ℓ : Literal := ⟨sign, ds, [], false, .absent, [], some, by simpa using digits⟩
  have hchars : text.toList = ℓ.chars := by
    simpa [Literal.chars, Literal.fractionChars, Literal.exponentChars, ℓ] using written
  refine ⟨ℓ, ?_, ?_⟩
  · rw [Literal.text, ← hchars, String.ofList_toList]
  · rw [hchars] at h
    rw [Literal.number_of_counts h]
    exact_mod_cast large

/-! ## Blanks in names and numbers -/

theorem isBlank_of_isDigit (digit : c.isDigit = true) : isBlank c = false := by
  have outside : ∀ r ∈ blankRanges, r.last < 48 ∨ 57 < r.first := by decide
  have range : 48 ≤ c.toNat ∧ c.toNat ≤ 57 := by
    simpa [Char.isDigit, UInt32.le_iff_toNat_le] using digit
  rw [Bool.eq_false_iff]
  intro blank
  obtain ⟨r, hr, first, last⟩ := CharRange.mem_iff.1 blank
  obtain h | h := outside r hr <;> omega

theorem Sign.isBlank_of_mem {sign : Sign} (h : c ∈ sign.chars) : isBlank c = false := by
  cases sign with
  | absent => cases h
  | plus | minus =>
    obtain rfl := List.mem_singleton.1 h
    decide

theorem Literal.isBlank_of_mem {ℓ : Literal} (h : c ∈ ℓ.chars) : isBlank c = false := by
  simp only [chars, List.mem_append] at h
  obtain ((sign | whole) | fraction) | exponent := h
  · exact Sign.isBlank_of_mem sign
  · exact isBlank_of_isDigit (ℓ.isDigit_of_mem_whole whole)
  · unfold fractionChars at fraction
    split at fraction
    · cases fraction
    · obtain rfl | digit := List.mem_cons.1 fraction
      · decide
      · exact isBlank_of_isDigit (ℓ.isDigit_of_mem_fraction digit)
  · unfold exponentChars letter at exponent
    split at exponent
    · cases exponent
    · simp only [List.cons_append, List.mem_cons, List.mem_append] at exponent
      obtain rfl | sign | digit := exponent
      · split <;> decide
      · exact Sign.isBlank_of_mem sign
      · exact isBlank_of_isDigit (ℓ.isDigit_of_mem_exponent digit)

/-- A name in any case has no white space if the name has none. -/
theorem InAnyCase.isBlank_of_mem (h : InAnyCase text name)
    (unblank : ∀ d ∈ name.toList, isBlank d = false ∧ isBlank d.toUpper = false) :
    ∀ c ∈ text.toList, isBlank c = false := by
  unfold InAnyCase at h
  generalize text.toList = cs, name.toList = ds at h unblank
  induction h with
  | nil => simp
  | cons same _ ih =>
    obtain ⟨first, later⟩ := List.forall_mem_cons.1 unblank
    refine List.forall_mem_cons.2 ⟨?_, ih later⟩
    obtain rfl | rfl := same
    · exact first.1
    · exact first.2

end Text

namespace Settings

/-! ## Settings as JSON -/

/-- The settings that a text spells, if it spells any. -/
def ofText? (text : String) : Option Settings :=
  Json.parse? text >>= ofJson?

/-- The keys of the fields that are read. -/
def knownKeys : List String :=
  ["offset_encoding", "range_policy", "max_source_bytes"]

/-- The field has a key that settings do not know. -/
def Unknown (f : Option String × Json) : Prop :=
  ∃ key, f.1 = some key ∧ key ∉ knownKeys

section
variable {α : Type} {read? : Json → Option α} {value : α} {key : String} {v : Json}
  {fields fields' others : List (Option String × Json)} {s : Settings} {literal : String}

theorem readOnce_perm (h : fields.Perm fields') :
    readOnce read? value key fields = readOnce read? value key fields' := by
  have filtered := h.filter fun f => f.1 == some key
  unfold readOnce
  generalize fields.filter _ = fs, fields'.filter _ = fs' at filtered ⊢
  cases fs with
  | nil => rw [filtered.nil_eq]
  | cons f fs =>
    cases fs with
    | nil => rw [List.singleton_perm.1 filtered]
    | cons g fs =>
      have length := filtered.length_eq
      obtain ⟨f', g', fs', rfl⟩ : ∃ a b tail, fs' = a :: b :: tail := by
        match fs', length with
        | a :: b :: tail, _ => exact ⟨a, b, tail, rfl⟩
      rfl

/-- The order of the fields does not matter. -/
theorem ofJson?_perm (h : fields.Perm fields') :
    ofJson? (.obj fields) = ofJson? (.obj fields') := by
  have texts : keysAreTexts fields = keysAreTexts fields' := h.all_eq
  simp only [ofJson?, texts, readOnce_perm h]

theorem readOnce_append (known : key ∈ knownKeys) (unknown : ∀ f ∈ others, Unknown f) :
    readOnce read? value key (fields ++ others) = readOnce read? value key fields := by
  have none : (others.filter fun f => f.1 == some key) = [] := by
    rw [List.filter_eq_nil_iff]
    intro f hf same
    obtain ⟨other, hother, absent⟩ := unknown f hf
    rw [hother, beq_iff_eq, Option.some.injEq] at same
    exact absent (same ▸ known)
  rw [readOnce, readOnce, List.filter_append, none, List.append_nil]

/-- Fields that settings do not know do not matter. -/
theorem ofJson?_append (unknown : ∀ f ∈ others, Unknown f) :
    ofJson? (.obj (fields ++ others)) = ofJson? (.obj fields) := by
  have texts : keysAreTexts (fields ++ others) = keysAreTexts fields := by
    have all : others.all (fun f => f.1.isSome) = true := by
      rw [List.all_eq_true]
      intro f hf
      obtain ⟨other, hother, -⟩ := unknown f hf
      rw [hother]
      rfl
    rw [keysAreTexts, List.all_append, all, Bool.and_true, keysAreTexts]
  have known : ∀ key ∈ knownKeys, ∀ {β : Type} (read? : Json → Option β) (value : β),
      readOnce read? value key (fields ++ others) = readOnce read? value key fields :=
    fun key hkey _ _ _ => readOnce_append hkey unknown
  simp only [ofJson?, texts, known "offset_encoding" (by decide), known "range_policy" (by decide),
    known "max_source_bytes" (by decide)]

theorem unitOf?_name (u : OffsetUnit) : unitOf? (.text u.name) = some u := by
  apply OffsetUnit.ofSpelling?_eq_some_iff.2
  cases u <;> decide

theorem policyOf?_name (p : RangePolicy) : policyOf? (.text p.name) = some p :=
  RangePolicy.ofName?_eq_some_iff.2 rfl

theorem limitOf?_nat (n : UInt64) : limitOf? (.nat n.toNat) = some n := by
  have counts : Text.Counts (Text.decimal n.toNat).toList n.toNat := by
    rw [Text.decimal, String.toList_ofList]
    exact Text.counts_digits n.toNat 0 [] (.inl rfl)
  rw [Json.nat, limitOf?, Text.readWord_eq_ok_iff.2 counts]
  rfl

theorem ofJson?_toJson (s : Settings) : ofJson? s.toJson = some s := by
  simp [toJson, Json.record, ofJson?, keysAreTexts, readOnce, unitOf?_name, policyOf?_name,
    limitOf?_nat]

theorem writable_toJson (s : Settings) : s.toJson.Writable := by
  refine ⟨trivial, trivial, ⟨Text.numeral s.limit.toNat, Text.proper_numeral _, ?_⟩, trivial⟩
  exact (Text.text_numeral _).symm

/-! ## Limits that are too large -/

theorem limitOf?_of_tooLarge (h : Text.TooLarge literal) : limitOf? (.num literal) = none := by
  obtain ⟨ℓ, rfl, large⟩ := h
  obtain ⟨fault, hfault⟩ := Text.readWord_eq_error_of_le large
  rw [limitOf?, hfault]
  rfl

/-- A field whose value cannot be read is not passed over. -/
theorem readOnce_eq_none (h : (some key, v) ∈ fields) (refused : read? v = none) :
    readOnce read? value key fields = none := by
  have given : (some key, v) ∈ fields.filter fun f => f.1 == some key :=
    List.mem_filter.2 ⟨h, beq_self_eq_true _⟩
  unfold readOnce
  split
  · next heq =>
    rw [heq] at given
    cases given
  · next heq =>
    rw [heq, List.mem_singleton] at given
    obtain ⟨-, rfl⟩ := Prod.mk.inj given
    exact refused
  · rfl

/-- The value gives a limit by this literal. -/
inductive HasLimit (literal : String) : Json → Prop
  | field {fields : List (Option String × Json)} :
      (some "max_source_bytes", .num literal) ∈ fields → HasLimit literal (.obj fields)
  | item {u p : Json} {rest : List Json} : HasLimit literal (.arr (u :: p :: .num literal :: rest))

theorem ofJson?_of_tooLarge (large : Text.TooLarge literal) (h : HasLimit literal v) :
    ofJson? v = none := by
  have refused := limitOf?_of_tooLarge large
  cases h with
  | field h =>
    simp [ofJson?, readOnce_eq_none h refused]
  | @item u p rest =>
    cases rest with
    | nil => simp [ofJson?, refused]
    | cons => rfl

end

/-! ## Settings as named texts -/

section
variable {base s : Settings} {lookup : String → Option String} {key text name detail : String}

/-- The look-up has the text for the key, with white space around it or not. -/
def Padded (lookup : String → Option String) (key text : String) : Prop :=
  ∃ front back raw, lookup key = some raw ∧ raw.toList = front ++ text.toList ++ back ∧
    (∀ c ∈ front, Text.isBlank c = true) ∧ ∀ c ∈ back, Text.isBlank c = true

theorem Padded.gives (h : Padded lookup key text) (some : text.toList ≠ [])
    (unblank : ∀ c ∈ text.toList, Text.isBlank c = false) : Gives lookup key text := by
  obtain ⟨front, back, raw, hraw, written, hfront, hback⟩ := h
  have bare : Text.Bare text.toList :=
    ⟨fun c hc => unblank c (List.mem_of_head? hc), fun c hc => unblank c (List.mem_of_getLast? hc)⟩
  refine ⟨?_, raw, hraw, front, back, written, hfront, hback, bare⟩
  rintro rfl
  exact some rfl

/-- The look-up has the names of the settings in any case, and the limit in decimal with any number
of zeros and perhaps a plus sign in front. There may be white space around each of them. -/
structure Holds (lookup : String → Option String) (s : Settings) : Prop where
  unit : ∃ text, Padded lookup unitKey text ∧ Text.InAnyCase text s.unit.name
  policy : ∃ text, Padded lookup policyKey text ∧ Text.InAnyCase text s.policy.name
  limit : ∃ text sign zeros, Padded lookup limitKey text ∧ (sign = [] ∨ sign = ['+']) ∧
    text.toList = sign ++ List.replicate zeros '0' ++ Text.digits 10 s.limit.toNat

/-- What a look-up holds as a name in any case, it gives. -/
theorem Padded.gives_name (h : Padded lookup key text) (any : Text.InAnyCase text name)
    (some : name.toList ≠ [])
    (unblank : (name.toList.all fun d => !Text.isBlank d && !Text.isBlank d.toUpper) = true) :
    Gives lookup key text := by
  refine h.gives ?_ (any.isBlank_of_mem ?_)
  · intro empty
    have length := any.length_eq
    rw [empty] at length
    exact some (List.length_eq_zero_iff.1 length.symm)
  · simpa using unblank

theorem overlay_of_holds (h : Holds lookup s) : base.overlay lookup = .ok s := by
  obtain ⟨⟨u, unit, anyUnit⟩, ⟨p, policy, anyPolicy⟩, n, sign, zeros, limit, hsign, written⟩ := h
  have givenUnit : Gives lookup unitKey u := by
    refine unit.gives_name anyUnit ?_ ?_ <;> cases s.unit <;> decide
  have givenPolicy : Gives lookup policyKey p := by
    refine policy.gives_name anyPolicy ?_ ?_ <;> cases s.policy <;> decide
  have counts : Text.Counts n.toList s.limit.toNat := by
    rw [written]
    exact Text.counts_digits _ zeros sign hsign
  have givenLimit : Gives lookup limitKey n := by
    refine limit.gives ?_ ?_
    · rw [written]
      exact List.append_ne_nil_of_right_ne_nil _ (Text.digits_ne_nil _)
    · intro c hc
      obtain rfl | digit := counts.plain hc
      · decide
      · exact Text.isBlank_of_isDigit digit
  have spelling : s.unit.name ∈ s.unit.spellings := by cases s.unit <;> decide
  rw [overlay_eq_ok_iff, choose_of_gives givenUnit, choose_of_gives givenPolicy,
    choose_of_gives givenLimit, readUnit_eq_ok_iff.2 ⟨_, spelling, anyUnit⟩,
    readPolicy_eq_ok_iff.2 anyPolicy, readLimit_eq_ok_iff.2 counts]
  exact ⟨rfl, rfl, rfl⟩

/-- A limit that is refused is reported, unless a value that is read before it is refused. -/
theorem overlay_of_refused (base : Settings) (given : Gives lookup limitKey text)
    (refused : readLimit text = .error detail) :
    ∃ e, base.overlay lookup = .error e ∧ (e.key = limitKey → e = ⟨limitKey, text, detail⟩) := by
  rw [overlay_eq]
  cases hunit : choose readUnit unitKey lookup base.unit with
  | error e =>
    refine ⟨e, rfl, fun same => ?_⟩
    rw [(refused_of_choose hunit).1] at same
    exact absurd same (by decide)
  | ok u =>
    cases hpolicy : choose readPolicy policyKey lookup base.policy with
    | error e =>
      refine ⟨e, rfl, fun same => ?_⟩
      rw [(refused_of_choose hpolicy).1] at same
      exact absurd same (by decide)
    | ok p =>
      rw [choose_of_gives given, refused]
      exact ⟨_, rfl, fun _ => rfl⟩

/-- A limit that is too large is refused however it is written, and for its size where it has digits
alone. -/
theorem overlay_of_tooLarge (large : Text.TooLarge text) (h : Padded lookup limitKey text) :
    ∃ e, base.overlay lookup = .error e ∧ (e.key = limitKey → e.value = text ∧
      ∀ n, Text.Counts text.toList n → e.detail = Text.DigitFault.tooLarge.message) := by
  obtain ⟨ℓ, rfl, large⟩ := large
  obtain ⟨fault, hfault⟩ := Text.readWord_eq_error_of_le large
  have chars : ℓ.text.toList = ℓ.chars := String.toList_ofList
  have given : Gives lookup limitKey ℓ.text := by
    refine h.gives ?_ ?_
    · rw [chars]
      simp [Text.Literal.chars, ℓ.whole_ne_nil]
    · intro c hc
      rw [chars] at hc
      exact Text.Literal.isBlank_of_mem hc
  have refused : readLimit ℓ.text = .error fault.message := by
    rw [readLimit, hfault]
  obtain ⟨e, he, reported⟩ := overlay_of_refused base given refused
  refine ⟨e, he, fun same => ?_⟩
  rw [reported same]
  refine ⟨rfl, fun n counts => ?_⟩
  have size : UInt64.size ≤ n := by
    rw [Text.Literal.number_of_counts (chars ▸ counts)] at large
    exact_mod_cast large
  rw [Text.readWord_tooLarge counts size] at hfault
  cases hfault
  rfl

end

/-! ## Both forms -/

/-- Settings are read back from the JSON object that is written for them, with its fields in any
order, unknown ones among them and all of it spelled in any way, and from texts that hold them,
whatever they are laid over. A limit that is too large for a word is refused in both forms. -/
theorem forms_read_back (s : Settings) :
    ofText? s.toJson.render = some s ∧
    (∀ written others fields text, s.toJson = .obj written → fields.Perm (written ++ others) →
      (∀ f ∈ others, Unknown f) → Json.SpelledBy (.obj fields) text → ofText? text = some s) ∧
    (∀ (base : Settings) (lookup : String → Option String), Holds lookup s →
      base.overlay lookup = .ok s) ∧
    ∀ literal, Text.TooLarge literal →
      (∀ text v, Json.parse? text = some v → HasLimit literal v → ofText? text = none) ∧
      ∀ lookup, Padded lookup limitKey literal →
        ∃ e, s.overlay lookup = .error e ∧ (e.key = limitKey → e.value = literal ∧
          ∀ n, Text.Counts literal.toList n → e.detail = Text.DigitFault.tooLarge.message) := by
  refine ⟨?_, ?_, fun base lookup => overlay_of_holds, fun literal large => ⟨?_, ?_⟩⟩
  · have spelled := Json.spelledBy_render (writable_toJson s)
    rw [ofText?, Json.parse?_of_spelledBy spelled]
    exact ofJson?_toJson s
  · intro written others fields text hwritten order unknown spelled
    rw [ofText?, Json.parse?_of_spelledBy spelled]
    calc ofJson? (.obj fields)
        = ofJson? (.obj (written ++ others)) := ofJson?_perm order
      _ = ofJson? (.obj written) := ofJson?_append unknown
      _ = some s := hwritten ▸ ofJson?_toJson s
  · intro text v parsed limit
    rw [ofText?, parsed]
    exact ofJson?_of_tooLarge large limit
  · exact fun lookup padded => overlay_of_tooLarge large padded

/-- A text with a field that settings do not know and blanks between some of its tokens. -/
def notedText : String :=
  "\x7b\"notes\" : [ ],\n\"max_source_bytes\":4096," ++
    "\"range_policy\":\"contained\",\"offset_encoding\":\"utf16\"\x7d\n"

def notedSettings : Settings := ⟨.utf16, .contained, 4096⟩

def notedFields : List (Option String × Json) :=
  [(some "notes", .arr []), (some "max_source_bytes", .nat 4096),
    (some "range_policy", .text "contained"), (some "offset_encoding", .text "utf16")]

theorem digits_noted : Text.digits 10 4096 = ['4', '0', '9', '6'] := by
  simp [Text.digits]

theorem spelledBy_noted : Json.SpelledBy (.obj notedFields) notedText := by
  have number : Json.Spells (.nat 4096) ['4', '0', '9', '6'] := by
    have spelled := Json.Spells.num (Text.proper_numeral 4096)
    rw [Text.text_numeral] at spelled
    have chars : (Text.numeral 4096).chars = ['4', '0', '9', '6'] := by
      simp [Text.Literal.chars, Text.Literal.fractionChars, Text.Literal.exponentChars,
        Text.numeral, Text.Sign.chars, digits_noted]
    rwa [chars] at spelled
  have space : Json.Gap [' '] := Json.gap_singleton rfl
  have newline : Json.Gap ['\n'] := Json.gap_singleton rfl
  have string (s : String) : Json.SpellsText (some s) (Json.writeString (some s)) :=
    Json.spellsText_writeString (some s)
  have none : Json.Gap [] := Json.gap_nil
  refine ⟨[], _, ['\n'], ?_, none, .obj <|
    .more none (string "notes") space space (.noItems space) none <|
    .more newline (string "max_source_bytes") none none number none <|
    .more none (string "range_policy") none none (.str (string "contained")) none <|
    .last none (string "offset_encoding") none none (.str (string "utf16")) none, newline⟩
  decide +kernel

/-- A look-up that holds the same settings. -/
def notedTexts : String → Option String
  | "KERF_OFFSET_ENCODING" => some "\tUtF16 "
  | "KERF_RANGE_POLICY" => some "CONTAINED"
  | "KERF_MAX_SOURCE_BYTES" => some " +0004096\n"
  | _ => none

theorem holds_noted : Holds notedTexts notedSettings where
  unit := by
    refine ⟨"UtF16", ⟨['\t'], [' '], _, rfl, rfl, List.forall_mem_singleton.2 rfl,
      List.forall_mem_singleton.2 rfl⟩, ?_⟩
    exact .cons (.inr rfl) (.cons (.inl rfl) (.cons (.inr rfl) (.cons (.inl rfl)
      (.cons (.inl rfl) .nil))))
  policy := by
    refine ⟨"CONTAINED", ⟨[], [], _, rfl, rfl, List.forall_mem_nil _, List.forall_mem_nil _⟩, ?_⟩
    exact .cons (.inr rfl) (.cons (.inr rfl) (.cons (.inr rfl) (.cons (.inr rfl) (.cons (.inr rfl)
      (.cons (.inr rfl) (.cons (.inr rfl) (.cons (.inr rfl) (.cons (.inr rfl) .nil))))))))
  limit := by
    refine ⟨"+0004096", ['+'], 3, ⟨[' '], ['\n'], _, rfl, rfl, List.forall_mem_singleton.2 rfl,
      List.forall_mem_singleton.2 rfl⟩, .inr rfl, ?_⟩
    have digits : Text.digits 10 notedSettings.limit.toNat = ['4', '0', '9', '6'] := digits_noted
    rw [digits]
    rfl

/-- The smallest limit that is too large, in JSON and as a named text. -/
def largeLimit : String := "18446744073709551616"

def largeFields : List (Option String × Json) :=
  [(some "max_source_bytes", .num largeLimit)]

def largeText : String → Option String
  | "KERF_MAX_SOURCE_BYTES" => some " 18446744073709551616"
  | _ => none

theorem tooLarge_largeLimit : Text.TooLarge largeLimit := by
  have counts : Text.Counts largeLimit.toList (2 ^ 64) :=
    ⟨_, .inl rfl, by decide, by simp [largeLimit], rfl⟩
  exact Text.tooLarge_of_counts counts (Nat.le_refl _)

theorem spelledBy_large :
    Json.SpelledBy (.obj largeFields) (Json.render (.obj largeFields)) := by
  apply Json.spelledBy_render
  let ℓ : Text.Literal := ⟨.absent, largeLimit.toList, [], false, .absent, [], by decide,
    by simp [largeLimit]⟩
  exact ⟨⟨ℓ, ⟨by rintro ⟨⟩, .inr (by decide)⟩, rfl⟩, trivial⟩

theorem forms_read_back_noted :
    ofText? notedText = some notedSettings ∧
    standard.overlay notedTexts = .ok notedSettings ∧
    ofText? (Json.render (.obj largeFields)) = none ∧
    ∃ e, notedSettings.overlay largeText = .error e := by
  obtain ⟨-, text, texts, large⟩ := forms_read_back notedSettings
  obtain ⟨inJson, inTexts⟩ := large largeLimit tooLarge_largeLimit
  refine ⟨?_, texts standard notedTexts holds_noted, ?_, ?_⟩
  · have order : notedFields.Perm notedFields.reverse := (List.reverse_perm _).symm
    apply text _ [(some "notes", .arr [])] notedFields notedText rfl order ?_ spelledBy_noted
    simp [Unknown, knownKeys]
  · exact inJson _ _ (Json.parse?_of_spelledBy spelledBy_large) (.field (.head _))
  · obtain ⟨e, refused, -⟩ := inTexts largeText ⟨[' '], [], _, rfl, rfl,
      List.forall_mem_singleton.2 rfl, List.forall_mem_nil _⟩
    exact ⟨e, refused⟩

end Settings

end StatementOutline
