import Mathlib.Data.List.Forall2
import Mathlib.Data.List.TakeWhile
import StatementOutline.Proofs.Words
import StatementOutline.Settings.Overlay

/-!
# How overlays compose

Each of the three values of a look-up is trimmed, passed over when it is blank, and read by rules of
its own; the first one refused is reported. Laying one look-up over another is the same as laying a
single one that takes each value from the later look-up where that has one.

* `Text.trim_eq_iff`, `Text.foldCase_eq_iff`: what is trimmed, and what a name is in any case;
* `choose`: one value of an overlay, of which an overlay consists (`overlay_eq`);
* `choose_stacked`: the composition of one value;
* `overlay_composes`: the composition of overlays.
-/

namespace StatementOutline

namespace Text

variable {c d : Char} {cs raw core : List Char} {s t : String}

/-! ## Trimming -/

/-- The text neither starts nor ends with white space. -/
def Bare (cs : List Char) : Prop :=
  (∀ c, cs.head? = some c → isBlank c = false) ∧ ∀ c, cs.getLast? = some c → isBlank c = false

/-- The first text is the second one with white space around it. -/
def Pads (raw core : List Char) : Prop :=
  ∃ front back, raw = front ++ core ++ back ∧ (∀ c ∈ front, isBlank c = true) ∧
    (∀ c ∈ back, isBlank c = true) ∧ Bare core

theorem trimStart_eq_self (h : ∀ c, cs.head? = some c → isBlank c = false) :
    trimStart cs = cs := by
  cases cs with
  | nil => rfl
  | cons c cs => exact List.dropWhile_cons_of_neg (by simp [h c rfl])

theorem trimEnd_eq (cs : List Char) : trimEnd cs = (trimStart cs.reverse).reverse := rfl

theorem trimEnd_eq_self (h : ∀ c, cs.getLast? = some c → isBlank c = false) :
    trimEnd cs = cs := by
  have start : trimStart cs.reverse = cs.reverse :=
    trimStart_eq_self fun c hc => h c (by rwa [List.head?_reverse] at hc)
  rw [trimEnd_eq, start, List.reverse_reverse]

/-- White space in front of and behind a bare text is trimmed, and nothing else. -/
theorem Pads.trimmed (h : Pads raw core) : trimEnd (trimStart raw) = core := by
  obtain ⟨front, back, rfl, hfront, hback, hhead, hlast⟩ := h
  rw [List.append_assoc, trimStart_pad hfront]
  cases core with
  | nil =>
    have gone : trimStart back = [] := List.dropWhile_eq_nil_iff.2 hback
    rw [List.nil_append, gone]
    rfl
  | cons c core =>
    rw [trimStart_eq_self (by simpa using hhead), trimEnd_pad hback, trimEnd_eq_self hlast]

theorem exists_pad_start (cs : List Char) :
    ∃ front, cs = front ++ trimStart cs ∧ ∀ c ∈ front, isBlank c = true :=
  ⟨cs.takeWhile isBlank, List.takeWhile_append_dropWhile.symm, fun _ => List.mem_takeWhile_imp⟩

theorem exists_pad_end (cs : List Char) :
    ∃ back, cs = trimEnd cs ++ back ∧ ∀ c ∈ back, isBlank c = true := by
  obtain ⟨front, hcs, hfront⟩ := exists_pad_start cs.reverse
  refine ⟨front.reverse, ?_, by simpa using hfront⟩
  have := congrArg List.reverse hcs
  rwa [List.reverse_reverse, List.reverse_append] at this

theorem isBlank_of_head?_trimStart (h : (trimStart cs).head? = some c) : isBlank c = false := by
  have := List.head?_dropWhile_not isBlank cs
  rw [← trimStart, h] at this
  simpa using this

theorem bare_trimmed (raw : List Char) : Bare (trimEnd (trimStart raw)) := by
  constructor
  · intro c hc
    obtain ⟨back, hback, -⟩ := exists_pad_end (trimStart raw)
    apply isBlank_of_head?_trimStart
    rw [hback, List.head?_append, hc]
    rfl
  · intro c hc
    rw [trimEnd_eq, List.getLast?_reverse] at hc
    exact isBlank_of_head?_trimStart hc

theorem pads_trimmed (raw : List Char) : Pads raw (trimEnd (trimStart raw)) := by
  obtain ⟨front, hfront, blank⟩ := exists_pad_start raw
  obtain ⟨back, hback, blank'⟩ := exists_pad_end (trimStart raw)
  refine ⟨front, back, ?_, blank, blank', bare_trimmed raw⟩
  rw [List.append_assoc, ← hback, ← hfront]

theorem trim_eq_iff : trim s = t ↔ Pads s.toList t.toList := by
  rw [trim]
  constructor
  · rintro rfl
    rw [String.toList_ofList]
    exact pads_trimmed s.toList
  · intro h
    rw [h.trimmed, String.ofList_toList]

/-! ## Names in any case -/

theorem toNat_toLower (c : Char) :
    c.toLower.toNat = if 65 ≤ c.toNat ∧ c.toNat ≤ 90 then c.toNat + 32 else c.toNat := by
  unfold Char.toLower
  split
  · next h =>
    have capital : 65 ≤ c.toNat ∧ c.toNat ≤ 90 := by simpa [UInt32.le_iff_toNat_le] using h
    rw [if_pos capital]
    show (c.val + ('a'.val - 'A'.val)).toNat = c.toNat + 32
    simp [UInt32.toNat_add]
    omega
  · next h =>
    have other : ¬ (65 ≤ c.toNat ∧ c.toNat ≤ 90) := by simpa [UInt32.le_iff_toNat_le] using h
    rw [if_neg other]

theorem toNat_toUpper (c : Char) :
    c.toUpper.toNat = if 97 ≤ c.toNat ∧ c.toNat ≤ 122 then c.toNat - 32 else c.toNat := by
  unfold Char.toUpper
  split
  · next h =>
    have small : 97 ≤ c.toNat ∧ c.toNat ≤ 122 := by simpa [UInt32.le_iff_toNat_le] using h
    rw [if_pos small]
    show (c.val + ('A'.val - 'a'.val)).toNat = c.toNat - 32
    simp [UInt32.toNat_add]
    omega
  · next h =>
    have other : ¬ (97 ≤ c.toNat ∧ c.toNat ≤ 122) := by simpa [UInt32.le_iff_toNat_le] using h
    rw [if_neg other]

/-- A character is put into lower case as itself or from the capital. -/
theorem toLower_eq_iff (hd : ¬ (65 ≤ d.toNat ∧ d.toNat ≤ 90)) :
    c.toLower = d ↔ c = d ∨ c = d.toUpper := by
  rw [← Char.toNat_inj, ← Char.toNat_inj, ← Char.toNat_inj, toNat_toLower, toNat_toUpper]
  split <;> split <;> omega

/-- The text is the name with some of its letters as capitals. -/
def InAnyCase (text name : String) : Prop :=
  List.Forall₂ (fun c d : Char => c = d ∨ c = d.toUpper) text.toList name.toList

/-- The name has no capitals. -/
def Small (name : String) : Prop :=
  ∀ d ∈ name.toList, ¬ (65 ≤ d.toNat ∧ d.toNat ≤ 90)

instance (name : String) : Decidable (Small name) :=
  List.decidableBAll (fun d : Char => ¬ (65 ≤ d.toNat ∧ d.toNat ≤ 90)) name.toList

theorem map_toLower_eq_iff (small : ∀ d ∈ core, ¬ (65 ≤ d.toNat ∧ d.toNat ≤ 90)) :
    cs.map Char.toLower = core ↔
      List.Forall₂ (fun c d : Char => c = d ∨ c = d.toUpper) cs core := by
  induction core generalizing cs with
  | nil => simp
  | cons d core ih =>
    cases cs with
    | nil => simp
    | cons c cs =>
      rw [List.map_cons, List.cons.injEq, List.forall₂_cons, toLower_eq_iff (small d (by simp)),
        ih fun e he => small e (by simp [he])]

theorem foldCase_eq_iff (small : Small t) : foldCase s = t ↔ InAnyCase s t := by
  rw [foldCase, InAnyCase, ← map_toLower_eq_iff small]
  constructor
  · rintro rfl
    rw [String.toList_ofList]
  · intro h
    rw [h, String.ofList_toList]

end Text

/-! ## How the values are read -/

namespace OffsetUnit

/-- The text is one of the spellings of the unit, in any case. -/
def ReadFrom (text : String) (u : OffsetUnit) : Prop :=
  ∃ spelling ∈ u.spellings, Text.InAnyCase text spelling

variable {text : String} {u : OffsetUnit}

theorem ofSpelling?_eq_some_iff : ofSpelling? text = some u ↔ text ∈ u.spellings := by
  constructor
  · intro h
    unfold ofSpelling? at h
    have found := List.find?_some h
    exact List.contains_iff_mem.1 found
  · intro h
    cases u <;> simp only [spellings, List.mem_cons, List.not_mem_nil, or_false] at h
    · obtain rfl | rfl | rfl := h <;> decide
    · obtain rfl | rfl := h <;> decide

theorem ofText?_eq_some_iff : ofText? text = some u ↔ ReadFrom text u := by
  have small : ∀ v : OffsetUnit, ∀ spelling ∈ v.spellings, Text.Small spelling := by
    rintro ⟨⟩ <;> decide
  rw [ofText?, ofSpelling?_eq_some_iff]
  constructor
  · intro h
    exact ⟨_, h, (Text.foldCase_eq_iff (small u _ h)).1 rfl⟩
  · rintro ⟨spelling, h, any⟩
    rwa [(Text.foldCase_eq_iff (small u spelling h)).2 any]

end OffsetUnit

namespace RangePolicy

/-- The text is the name of the policy, in any case. -/
def ReadFrom (text : String) (p : RangePolicy) : Prop :=
  Text.InAnyCase text p.name

variable {text : String} {p : RangePolicy}

theorem ofName?_eq_some_iff : ofName? text = some p ↔ text = p.name := by
  constructor
  · intro h
    unfold ofName? at h
    have found := List.find?_some h
    exact (eq_of_beq found).symm
  · rintro rfl
    cases p <;> decide

theorem ofText?_eq_some_iff : ofText? text = some p ↔ ReadFrom text p := by
  have small : Text.Small p.name := by cases p <;> decide
  rw [ofText?, ofName?_eq_some_iff, Text.foldCase_eq_iff small, ReadFrom]

end RangePolicy

namespace Settings

variable {lookup l₁ l₂ : String → Option String} {key text : String} {base m : Settings}

/-- The look-up has a value for the key that is not blank, and this is the value without the white
space around it. -/
def Gives (lookup : String → Option String) (key text : String) : Prop :=
  text ≠ "" ∧ ∃ raw, lookup key = some raw ∧ Text.Pads raw.toList text.toList

theorem filled_eq_some_iff : filled lookup key = some text ↔ Gives lookup key text := by
  rw [filled, Option.filter_eq_some_iff, Option.map_eq_some_iff]
  simp only [Text.trim_eq_iff, decide_eq_true_eq, Gives]
  exact and_comm

theorem filled_eq_none_iff : filled lookup key = none ↔ ∀ text, ¬ Gives lookup key text := by
  rw [Option.eq_none_iff_forall_ne_some]
  exact forall_congr' fun text => not_congr filled_eq_some_iff

theorem filled_congr (h : l₁ key = l₂ key) : filled l₁ key = filled l₂ key := by
  rw [filled, filled, h]

/-! ## One value of an overlay -/

section
variable {α : Type} {read : String → Except String α} {old mid new : α} {e : RejectedValue}

/-- The value under a key, if the look-up has one, and otherwise the old one. -/
def choose (read : String → Except String α) (key : String) (lookup : String → Option String)
    (old : α) : Except RejectedValue α :=
  match filled lookup key with
  | none => .ok old
  | some text =>
    match read text with
    | .ok new => .ok new
    | .error detail => .error ⟨key, text, detail⟩

theorem choose_of_gives (h : Gives lookup key text) : choose read key lookup old =
    match read text with
    | .ok new => .ok new
    | .error detail => .error ⟨key, text, detail⟩ := by
  rw [choose, filled_eq_some_iff.2 h]

theorem choose_of_blank (h : ∀ text, ¬ Gives lookup key text) :
    choose read key lookup old = .ok old := by
  rw [choose, filled_eq_none_iff.2 h]

theorem choose_eq_ok_iff : choose read key lookup old = .ok new ↔
    (∃ text, Gives lookup key text ∧ read text = .ok new) ∨
      (∀ text, ¬ Gives lookup key text) ∧ new = old := by
  by_cases given : ∃ text, Gives lookup key text
  · obtain ⟨text, given⟩ := given
    have only : ∀ other, Gives lookup key other → other = text := by
      intro other h
      have same := (filled_eq_some_iff.2 h).symm.trans (filled_eq_some_iff.2 given)
      exact Option.some.inj same
    rw [choose_of_gives given]
    constructor
    · intro h
      refine .inl ⟨text, given, ?_⟩
      cases hread : read text <;> rw [hread] at h <;> cases h
      rfl
    · rintro (⟨other, hother, hread⟩ | ⟨blank, -⟩)
      · rw [← only other hother, hread]
      · exact absurd given (blank text)
  · have blank : ∀ text, ¬ Gives lookup key text := fun text h => given ⟨text, h⟩
    rw [choose_of_blank blank]
    constructor
    · rintro ⟨⟩
      exact .inr ⟨blank, rfl⟩
    · rintro (⟨text, h, -⟩ | ⟨-, rfl⟩)
      · exact absurd h (blank text)
      · rfl

/-- What is reported is the text under the key, without the white space around it. -/
theorem refused_of_choose (h : choose read key lookup old = .error e) :
    e.key = key ∧ Gives lookup key e.value ∧ read e.value = .error e.detail := by
  unfold choose at h
  split at h
  · cases h
  · next text given =>
    split at h
    · cases h
    · next detail hread =>
      cases h
      exact ⟨rfl, filled_eq_some_iff.1 given, hread⟩

/-- The look-up that has the values of the later one where they are not blank, and those of the
earlier one elsewhere. -/
def stacked (earlier later : String → Option String) (key : String) : Option String :=
  match filled later key with
  | some _ => later key
  | none => earlier key

/-- A value laid over one that was laid over an old one. -/
theorem choose_stacked (h : choose read key l₁ old = .ok mid) :
    choose read key l₂ mid = choose read key (stacked l₁ l₂) old := by
  cases later : filled l₂ key with
  | some text =>
    have taken : stacked l₁ l₂ key = l₂ key := by rw [stacked, later]
    rw [choose, choose, filled_congr taken, later]
  | none =>
    have kept : stacked l₁ l₂ key = l₁ key := by rw [stacked, later]
    rw [choose, later, ← h, choose, choose, filled_congr kept]

end

/-! ## Overlays -/

def readUnit (text : String) : Except String OffsetUnit :=
  match OffsetUnit.ofText? text with
  | some u => .ok u
  | none => .error "expected utf8 or utf16"

def readPolicy (text : String) : Except String RangePolicy :=
  match RangePolicy.ofText? text with
  | some p => .ok p
  | none => .error "expected intersecting or contained"

def readLimit (text : String) : Except String UInt64 :=
  match Text.readWord text with
  | .ok n => .ok n
  | .error fault => .error fault.message

theorem overlayUnit_eq (s : Settings) : overlayUnit lookup s =
    (choose readUnit unitKey lookup s.unit).map fun u => { s with unit := u } := by
  unfold overlayUnit choose readUnit
  cases filled lookup unitKey with
  | none => rfl
  | some text =>
    dsimp only
    cases OffsetUnit.ofText? text <;> rfl

theorem overlayPolicy_eq (s : Settings) : overlayPolicy lookup s =
    (choose readPolicy policyKey lookup s.policy).map fun p => { s with policy := p } := by
  unfold overlayPolicy choose readPolicy
  cases filled lookup policyKey with
  | none => rfl
  | some text =>
    dsimp only
    cases RangePolicy.ofText? text <;> rfl

theorem overlayLimit_eq (s : Settings) : overlayLimit lookup s =
    (choose readLimit limitKey lookup s.limit).map fun n => { s with limit := n } := by
  unfold overlayLimit choose readLimit
  cases filled lookup limitKey with
  | none => rfl
  | some text =>
    dsimp only
    cases Text.readWord text <;> rfl

/-- The three values are chosen in turn. -/
theorem overlay_eq (s : Settings) (lookup : String → Option String) : s.overlay lookup = do
    let u ← choose readUnit unitKey lookup s.unit
    let p ← choose readPolicy policyKey lookup s.policy
    let n ← choose readLimit limitKey lookup s.limit
    return ⟨u, p, n⟩ := by
  rw [overlay, overlayUnit_eq]
  cases choose readUnit unitKey lookup s.unit with
  | error e => rfl
  | ok u =>
    show (overlayPolicy lookup { s with unit := u } >>= overlayLimit lookup) = _
    rw [overlayPolicy_eq]
    cases choose readPolicy policyKey lookup s.policy with
    | error e => rfl
    | ok p =>
      show overlayLimit lookup { s with unit := u, policy := p } = _
      rw [overlayLimit_eq]
      cases choose readLimit limitKey lookup s.limit <;> rfl

/-- The keys in the order in which their values are read. -/
def keys : List String :=
  [unitKey, policyKey, limitKey]

/-- The text can be read as the value of the key. -/
def Accepts (key text : String) : Prop :=
  (key = unitKey → ∃ u, OffsetUnit.ReadFrom text u) ∧
    (key = policyKey → ∃ p, RangePolicy.ReadFrom text p) ∧
    (key = limitKey → ∃ n : UInt64, Text.Counts text.toList n.toNat)

/-- Among the values that the look-up has, this is the first one that cannot be read. -/
def FirstRefused (lookup : String → Option String) (e : RejectedValue) : Prop :=
  ∃ earlier later, keys = earlier ++ e.key :: later ∧
    (∀ key ∈ earlier, ∀ text, Gives lookup key text → Accepts key text) ∧
    Gives lookup e.key e.value ∧ ¬ Accepts e.key e.value

/-- A setting is read from the value of its key, and is kept if that is blank or missing. -/
def Chosen {α : Type} (ReadFrom : String → α → Prop) (lookup : String → Option String)
    (key : String) (old new : α) : Prop :=
  (∃ text, Gives lookup key text ∧ ReadFrom text new) ∨
    (∀ text, ¬ Gives lookup key text) ∧ new = old

/-- Each setting is the one that the look-up gives it, or is kept. -/
structure LaidOver (lookup : String → Option String) (base m : Settings) : Prop where
  unit : Chosen OffsetUnit.ReadFrom lookup unitKey base.unit m.unit
  policy : Chosen RangePolicy.ReadFrom lookup policyKey base.policy m.policy
  limit : Chosen (fun text (n : UInt64) => Text.Counts text.toList n.toNat) lookup limitKey
    base.limit m.limit

theorem readUnit_eq_ok_iff {u : OffsetUnit} :
    readUnit text = .ok u ↔ OffsetUnit.ReadFrom text u := by
  rw [← OffsetUnit.ofText?_eq_some_iff, readUnit]
  cases OffsetUnit.ofText? text <;> simp

theorem readPolicy_eq_ok_iff {p : RangePolicy} :
    readPolicy text = .ok p ↔ RangePolicy.ReadFrom text p := by
  rw [← RangePolicy.ofText?_eq_some_iff, readPolicy]
  cases RangePolicy.ofText? text <;> simp

theorem readLimit_eq_ok_iff {n : UInt64} :
    readLimit text = .ok n ↔ Text.Counts text.toList n.toNat := by
  rw [← Text.readWord_eq_ok_iff, readLimit]
  cases Text.readWord text <;> simp

theorem accepts_unit : Accepts unitKey text ↔ ∃ u, readUnit text = .ok u := by
  have other : unitKey ≠ policyKey ∧ unitKey ≠ limitKey := by decide
  simp [Accepts, other, readUnit_eq_ok_iff]

theorem accepts_policy : Accepts policyKey text ↔ ∃ p, readPolicy text = .ok p := by
  have other : policyKey ≠ unitKey ∧ policyKey ≠ limitKey := by decide
  simp [Accepts, other, readPolicy_eq_ok_iff]

theorem accepts_limit : Accepts limitKey text ↔ ∃ n, readLimit text = .ok n := by
  have other : limitKey ≠ unitKey ∧ limitKey ≠ policyKey := by decide
  simp [Accepts, other, readLimit_eq_ok_iff]

section
variable {α : Type} {read : String → Except String α} {old new : α} {e : RejectedValue}

/-- A value that was chosen could be read. -/
theorem accepted_of_choose (accepts : ∀ {text}, Accepts key text ↔ ∃ a, read text = .ok a)
    (h : choose read key lookup old = .ok new) :
    ∀ text, Gives lookup key text → Accepts key text := by
  intro text given
  rw [choose_of_gives given] at h
  cases hread : read text with
  | ok a => exact accepts.2 ⟨a, hread⟩
  | error detail =>
    rw [hread] at h
    cases h

/-- A value that was not chosen is refused first where all the earlier ones could be read. -/
theorem firstRefused_of_choose (accepts : ∀ {text}, Accepts key text ↔ ∃ a, read text = .ok a)
    (h : choose read key lookup old = .error e) (earlier later : List String)
    (order : keys = earlier ++ key :: later)
    (before : ∀ k ∈ earlier, ∀ text, Gives lookup k text → Accepts k text) :
    FirstRefused lookup e := by
  obtain ⟨rfl, given, hread⟩ := refused_of_choose h
  refine ⟨earlier, later, order, before, given, fun accepted => ?_⟩
  obtain ⟨a, ha⟩ := accepts.1 accepted
  rw [hread] at ha
  cases ha

theorem chosen_of_choose {ReadFrom : String → α → Prop}
    (reads : ∀ {text a}, read text = .ok a ↔ ReadFrom text a)
    (h : choose read key lookup old = .ok new) : Chosen ReadFrom lookup key old new := by
  obtain ⟨text, given, hread⟩ | kept := choose_eq_ok_iff.1 h
  · exact .inl ⟨text, given, reads.1 hread⟩
  · exact .inr kept

end

/-- An overlay that goes through has chosen all three values. -/
theorem overlay_eq_ok_iff : base.overlay lookup = .ok m ↔
    choose readUnit unitKey lookup base.unit = .ok m.unit ∧
    choose readPolicy policyKey lookup base.policy = .ok m.policy ∧
    choose readLimit limitKey lookup base.limit = .ok m.limit := by
  rw [overlay_eq]
  constructor
  · intro h
    cases hu : choose readUnit unitKey lookup base.unit with
    | error e =>
      rw [hu] at h
      cases h
    | ok u =>
      cases hp : choose readPolicy policyKey lookup base.policy with
      | error e =>
        rw [hu, hp] at h
        cases h
      | ok p =>
        cases hn : choose readLimit limitKey lookup base.limit with
        | error e =>
          rw [hu, hp, hn] at h
          cases h
        | ok n =>
          rw [hu, hp, hn] at h
          cases h
          exact ⟨rfl, rfl, rfl⟩
  · rintro ⟨hu, hp, hn⟩
    rw [hu, hp, hn]
    rfl

theorem firstRefused_of_overlay {e : RejectedValue} (h : base.overlay lookup = .error e) :
    FirstRefused lookup e := by
  rw [overlay_eq] at h
  cases hu : choose readUnit unitKey lookup base.unit with
  | error e' =>
    rw [hu] at h
    cases h
    exact firstRefused_of_choose accepts_unit hu [] [policyKey, limitKey] rfl (by simp)
  | ok u =>
    have unit := accepted_of_choose accepts_unit hu
    cases hp : choose readPolicy policyKey lookup base.policy with
    | error e' =>
      rw [hu, hp] at h
      cases h
      exact firstRefused_of_choose accepts_policy hp [unitKey] [limitKey] rfl (by simpa using unit)
    | ok p =>
      have policy := accepted_of_choose accepts_policy hp
      cases hn : choose readLimit limitKey lookup base.limit with
      | error e' =>
        rw [hu, hp, hn] at h
        cases h
        exact firstRefused_of_choose accepts_limit hn [unitKey, policyKey] [] rfl
          (by simpa using ⟨unit, policy⟩)
      | ok n =>
        rw [hu, hp, hn] at h
        cases h

theorem laidOver_of_overlay (h : base.overlay lookup = .ok m) : LaidOver lookup base m := by
  obtain ⟨hu, hp, hn⟩ := overlay_eq_ok_iff.1 h
  exact ⟨chosen_of_choose readUnit_eq_ok_iff hu, chosen_of_choose readPolicy_eq_ok_iff hp,
    chosen_of_choose readLimit_eq_ok_iff hn⟩

/-- Each of the values of an overlay is chosen again over the one chosen before. -/
theorem overlay_stacked (h : base.overlay l₁ = .ok m) :
    m.overlay l₂ = base.overlay (stacked l₁ l₂) := by
  obtain ⟨hu, hp, hn⟩ := overlay_eq_ok_iff.1 h
  rw [overlay_eq, overlay_eq, choose_stacked hu, choose_stacked hp, choose_stacked hn]

theorem stacked_self (l : String → Option String) : stacked l l = l := by
  funext key
  unfold stacked
  split <;> rfl

/-- An overlay goes through exactly when each value that is not blank can be read, and otherwise
reports the first one that cannot. A second overlay is one with both look-ups at once, whether it
goes through or not, and with the same look-up it changes nothing. -/
theorem overlay_composes (base : Settings) (l₁ l₂ : String → Option String) :
    ((∃ m, base.overlay l₁ = .ok m) ↔
      ∀ key ∈ keys, ∀ text, Gives l₁ key text → Accepts key text) ∧
    (∀ e, base.overlay l₁ = .error e → FirstRefused l₁ e) ∧
    (∀ m, base.overlay l₁ = .ok m →
      LaidOver l₁ base m ∧ m.overlay l₂ = base.overlay (stacked l₁ l₂)) ∧
    (base.overlay l₁ >>= fun m => m.overlay l₁) = base.overlay l₁ := by
  refine ⟨⟨?_, ?_⟩, fun e => firstRefused_of_overlay,
    fun m h => ⟨laidOver_of_overlay h, overlay_stacked h⟩, ?_⟩
  · rintro ⟨m, h⟩
    obtain ⟨hu, hp, hn⟩ := overlay_eq_ok_iff.1 h
    simp only [keys, List.forall_mem_cons, List.not_mem_nil, false_imp_iff, implies_true, and_true]
    exact ⟨accepted_of_choose accepts_unit hu, accepted_of_choose accepts_policy hp,
      accepted_of_choose accepts_limit hn⟩
  · intro accepted
    cases h : base.overlay l₁ with
    | ok m => exact ⟨m, rfl⟩
    | error e =>
      obtain ⟨earlier, later, order, -, given, refused⟩ := firstRefused_of_overlay h
      exact absurd (accepted e.key (by simp [order]) e.value given) refused
  · cases h : base.overlay l₁ with
    | error e => rfl
    | ok m =>
      show m.overlay l₁ = .ok m
      rw [overlay_stacked h, stacked_self, h]

/-- A look-up with a padded unit, a blank policy and a limit with a sign and zeros. -/
def earlierTexts : String → Option String
  | "KERF_OFFSET_ENCODING" => some "\tUTF-16 "
  | "KERF_RANGE_POLICY" => some "  "
  | "KERF_MAX_SOURCE_BYTES" => some "+007"
  | _ => none

/-- A look-up whose limit cannot be read. -/
def laterTexts : String → Option String
  | "KERF_RANGE_POLICY" => some "Contained"
  | "KERF_MAX_SOURCE_BYTES" => some " 7k "
  | _ => none

theorem overlay_earlierTexts :
    standard.overlay earlierTexts = .ok ⟨.utf16, .intersecting, 7⟩ := by
  decide

def refusedLimit : RejectedValue :=
  ⟨limitKey, "7k", "invalid digit found in string"⟩

theorem overlay_laterTexts (unit : OffsetUnit) (policy : RangePolicy) (limit : UInt64) :
    overlay ⟨unit, policy, limit⟩ laterTexts = .error refusedLimit :=
  rfl

theorem overlay_composes_padded :
    standard.overlay earlierTexts = .ok ⟨.utf16, .intersecting, 7⟩ ∧
    LaidOver earlierTexts standard ⟨.utf16, .intersecting, 7⟩ ∧
    standard.overlay (stacked earlierTexts laterTexts) = .error refusedLimit ∧
    standard.overlay laterTexts = .error refusedLimit ∧ FirstRefused laterTexts refusedLimit := by
  obtain ⟨-, -, composed, -⟩ := overlay_composes standard earlierTexts laterTexts
  obtain ⟨laid, both⟩ := composed _ overlay_earlierTexts
  obtain ⟨-, refused, -, -⟩ := overlay_composes standard laterTexts laterTexts
  rw [overlay_laterTexts] at both
  have later : standard.overlay laterTexts = .error refusedLimit := overlay_laterTexts _ _ _
  exact ⟨overlay_earlierTexts, laid, both.symm, later, refused _ later⟩

end Settings

end StatementOutline
