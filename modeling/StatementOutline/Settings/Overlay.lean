import StatementOutline.Settings
import StatementOutline.Text.Blank
import StatementOutline.Text.Decimal

/-!
# Overlaying settings

Settings can be overridden by named texts, such as the variables of an environment. A text is
trimmed and ignored when nothing is left of it. The names are tried in the order unit, policy,
limit, and the first text that its setting does not accept is reported.
-/

namespace StatementOutline

/-- A text that a setting does not accept. -/
structure RejectedValue where
  key : String
  value : String
  detail : String
deriving DecidableEq

def RejectedValue.message (r : RejectedValue) : String :=
  "invalid value '" ++ r.value ++ "' for " ++ r.key ++ ": " ++ r.detail

namespace Settings

def unitKey : String := "KERF_OFFSET_ENCODING"
def policyKey : String := "KERF_RANGE_POLICY"
def limitKey : String := "KERF_MAX_SOURCE_BYTES"

/-- What a look-up gives for a key, trimmed, unless it is blank. -/
def filled (lookup : String → Option String) (key : String) : Option String :=
  ((lookup key).map Text.trim).filter (· ≠ "")

/-- The unit of the settings after the look-up is laid over them. -/
def overlayUnit (lookup : String → Option String) (s : Settings) :
    Except RejectedValue Settings :=
  match filled lookup unitKey with
  | none => .ok s
  | some text =>
    match OffsetUnit.ofText? text with
    | some u => .ok { s with unit := u }
    | none => .error ⟨unitKey, text, "expected utf8 or utf16"⟩

/-- The policy of the settings after the look-up is laid over them. -/
def overlayPolicy (lookup : String → Option String) (s : Settings) :
    Except RejectedValue Settings :=
  match filled lookup policyKey with
  | none => .ok s
  | some text =>
    match RangePolicy.ofText? text with
    | some p => .ok { s with policy := p }
    | none => .error ⟨policyKey, text, "expected intersecting or contained"⟩

/-- The limit of the settings after the look-up is laid over them. -/
def overlayLimit (lookup : String → Option String) (s : Settings) :
    Except RejectedValue Settings :=
  match filled lookup limitKey with
  | none => .ok s
  | some text =>
    match Text.readWord text with
    | .ok n => .ok { s with limit := n }
    | .error fault => .error ⟨limitKey, text, fault.message⟩

/-- The settings with the values of a look-up laid over them. -/
def overlay (s : Settings) (lookup : String → Option String) : Except RejectedValue Settings := do
  let s ← overlayUnit lookup s
  let s ← overlayPolicy lookup s
  overlayLimit lookup s

end Settings

end StatementOutline
