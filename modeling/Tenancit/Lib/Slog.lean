import Mathlib.Tactic.Common

/-!
Structured log records: attributes whose values may be groups of attributes or are computed
when they are logged, and a handler that puts a record out as one JSON object. An object is
the list of its leaves here, each with the names of the objects around it: this is Go's
`log/slog` with the handler options left out.
-/
namespace Slog

/-- The values with a kind of their own, beside strings. -/
inductive Basic where
  | bool
  | int64
  | uint64
  | float64
  | duration
  | time
  deriving DecidableEq

def Basic.typeName : Basic → String
  | .bool => "bool"
  | .int64 => "int64"
  | .uint64 => "uint64"
  | .float64 => "float64"
  | .duration => "time.Duration"
  | .time => "time.Time"

structure Attr (V : Type) where
  key : String
  value : V

/-- A value, with the text that it is put out as. -/
inductive Value where
  | string (s : String)
  | basic (kind : Basic) (text : String)
  | nil
  /-- Any other value of a Go type, which may be an error. -/
  | any (typeName : String) (isError : Bool) (text : String)
  | group (attrs : List (Attr Value))
  /-- A value computed when it is logged; the computation may panic. -/
  | logValuer (typeName : String) (logValue : Except String Value)

namespace Value

/-- The values that are errors. -/
def IsError : Value → Prop
  | any _ isError _ => isError = true
  | _ => False

instance : DecidablePred IsError
  | any _ isError _ => inferInstanceAs (Decidable (isError = true))
  | string _ | basic _ _ | nil | group _ | logValuer _ _ => .isFalse id

/-- `fmt.Sprintf("%T", v.Any())` -/
def typeName : Value → String
  | string _ => "string"
  | basic kind _ => kind.typeName
  | nil => "<nil>"
  | any name _ _ => name
  | group _ => "[]slog.Attr"
  | logValuer name _ => name

/-- A group without attributes stands for nothing. -/
def isEmptyGroup : Value → Bool
  | group [] => true
  | _ => false

/-- `slog.GroupValue`: empty groups are left out when a group is made. -/
def groupValue (attrs : List (Attr Value)) : Value :=
  group (attrs.filter fun a => !a.value.isEmptyGroup)

theorem isEmptyGroup_groupValue (attrs : List (Attr Value)) :
    (groupValue attrs).isEmptyGroup = (attrs.filter fun a => !a.value.isEmptyGroup).isEmpty := by
  rw [groupValue]
  cases attrs.filter fun a => !a.value.isEmptyGroup <;> rfl

/-- The value of `fmt.Errorf` without a wrapped error. -/
def errorf (text : String) : Value := any "*errors.errorString" true text

def maxLogValues : Nat := 100

/-- The loop of `Resolve`, for so many calls. -/
def resolveWithin (orig : Value) : Nat → Value → Value
  | 0, _ => errorf ("LogValue called too many times on Value of type " ++ orig.typeName)
  | n + 1, logValuer _ (.ok v) => resolveWithin orig n v
  | _ + 1, logValuer _ (.error stack) => errorf ("LogValue panicked\n" ++ stack)
  | _ + 1, v => v

def resolve (v : Value) : Value := resolveWithin v maxLogValues v

theorem sizeOf_resolveWithin {orig v : Value} {n : Nat} {as : List (Attr Value)}
    (h : resolveWithin orig n v = group as) : sizeOf (group as) ≤ sizeOf v := by
  fun_induction resolveWithin orig n v with
  | case1 => cases h
  | case2 n name v ih =>
    have hle := ih h
    simp only [logValuer.sizeOf_spec, Except.ok.sizeOf_spec]
    omega
  | case3 => cases h
  | case4 n v _ _ => exact Nat.le_of_eq (congrArg sizeOf h).symm

/-- The attributes of a group are smaller than a value that resolves to it. -/
theorem sizeOf_child {v : Value} {as : List (Attr Value)} {a : Attr Value}
    (h : v.resolve = group as) (ha : a ∈ as) : sizeOf a.value < sizeOf v := by
  have hle := sizeOf_resolveWithin h
  have hmem := List.sizeOf_lt_of_mem ha
  obtain ⟨key, value⟩ := a
  simp only [group.sizeOf_spec, Attr.mk.sizeOf_spec] at hle hmem ⊢
  omega

/-- What is resolved is not computed anew. -/
theorem resolveWithin_ne_logValuer (orig : Value) (n : Nat) (v : Value) {name : String}
    {next : Except String Value} : resolveWithin orig n v ≠ logValuer name next := by
  fun_induction resolveWithin orig n v with
  | case1 => nofun
  | case2 _ _ _ ih => exact ih
  | case3 => nofun
  | case4 n v hok herror =>
    rintro rfl
    cases next with
    | error stack => exact herror name stack rfl
    | ok v => exact hok name v rfl

@[simp] theorem resolve_resolve (v : Value) : v.resolve.resolve = v.resolve := by
  cases h : v.resolve with
  | logValuer name next => exact absurd h (resolveWithin_ne_logValuer v _ v)
  | _ => rfl

end Value

/-- An attribute without a name and a value stands for nothing. -/
def isEmpty (a : Attr Value) : Bool :=
  match a.value with
  | .nil => a.key = ""
  | _ => false

/-- A leaf of the object put out, with the names of the groups that it is in. -/
structure Leaf where
  groups : List String
  key : String
  value : Value

/-- The groups of the attributes of a group: one without a name adds none. -/
def within (groups : List String) (key : String) : List String :=
  if key = "" then groups else groups ++ [key]

theorem mem_within {groups : List String} {key name : String} :
    key ∈ within groups name ↔ key ∈ groups ∨ key = name ∧ name ≠ "" := by
  by_cases h : name = "" <;> simp [within, h]

/-- `appendAttr` -/
def leaves (groups : List String) (a : Attr Value) : List Leaf :=
  match _h : a.value.resolve with
  | .group as => as.attach.flatMap fun b => leaves (within groups a.key) b.1
  | v => if isEmpty ⟨a.key, v⟩ then [] else [⟨groups, a.key, v⟩]
termination_by sizeOf a.value
decreasing_by exact Value.sizeOf_child ‹_› b.2

section rules

variable {groups : List String} {a : Attr Value} {as : List (Attr Value)} {v : Value}

/-- What holds of an attribute whenever it holds of those of the group it resolves to, holds
of them all. -/
theorem attr_induction {P : Attr Value → Prop}
    (h : ∀ a, (∀ as, a.value.resolve = .group as → ∀ b ∈ as, P b) → P a) (a : Attr Value) : P a :=
  h a fun _ _ b _ => attr_induction h b
termination_by sizeOf a.value
decreasing_by exact Value.sizeOf_child ‹_› ‹_›

theorem leaves_group (h : a.value.resolve = .group as) :
    leaves groups a = as.flatMap (leaves (within groups a.key)) := by
  rw [leaves]
  split
  case _ as' h' =>
    cases h.symm.trans h'
    exact (List.flatMap_subtype fun _ _ => rfl).trans (congrArg _ List.unattach_attach)
  case _ h' => exact absurd h (h' as)

theorem leaves_leaf (h : a.value.resolve = v) (hv : ∀ as, v ≠ .group as) :
    leaves groups a = if isEmpty ⟨a.key, v⟩ then [] else [⟨groups, a.key, v⟩] := by
  rw [leaves]
  split
  case _ as h' => exact absurd (h.symm.trans h') (hv as)
  case _ => rw [h]

theorem leaves_emptyGroup (h : a.value.isEmptyGroup = true) : leaves groups a = [] := by
  obtain ⟨key, value⟩ := a
  cases value with
  | group as =>
    cases as with
    | nil => exact leaves_group (a := ⟨key, .group []⟩) rfl
    | cons b as => cases h
  | _ => cases h

/-- The empty groups that are left out have no leaves. -/
theorem leaves_nonempty :
    (as.filter fun a => !a.value.isEmptyGroup).flatMap (leaves groups) =
      as.flatMap (leaves groups) := by
  induction as with
  | nil => rfl
  | cons a as ih =>
    rw [List.flatMap_cons, List.filter_cons]
    split
    · rw [List.flatMap_cons, ih]
    · next h => rw [leaves_emptyGroup (by simpa using h), ih, List.nil_append]

/-- `slog.Group` -/
def groupAttr (key : String) (attrs : List (Attr Value)) : Attr Value := ⟨key, .groupValue attrs⟩

theorem leaves_groupAttr {key : String} :
    leaves groups (groupAttr key as) = as.flatMap (leaves (within groups key)) :=
  (leaves_group (a := groupAttr key as) rfl).trans leaves_nonempty

end rules

/-- A record; without a time it does not show one. -/
structure Record where
  time : Option String
  level : Int
  message : String
  attrs : List (Attr Value) := []

def Record.addAttrs (r : Record) (attrs : List (Attr Value)) : Record :=
  { r with attrs := r.attrs ++ attrs.filter fun a => !a.value.isEmptyGroup }

/-- `Level.String` -/
def levelString (level : Int) : String :=
  let str (base : String) (offset : Int) : String :=
    if offset = 0 then base else base ++ (if 0 < offset then "+" else "") ++ toString offset
  if level < 0 then str "DEBUG" (level + 4)
  else if level < 4 then str "INFO" level
  else if level < 8 then str "WARN" (level - 4)
  else str "ERROR" (level - 8)

/-- `slog.Handler`; to handle a record is to put out an object. -/
class Handler (H : Type) where
  enabled : H → Int → Bool
  handle : H → Record → List Leaf
  withAttrs : H → List (Attr Value) → H
  withGroup : H → String → H

/-- The state of `slog.JSONHandler`: the groups opened, and the leaves already formatted. -/
structure JSONHandler where
  groups : List String := []
  preformatted : List Leaf := []

/-- The leaves of a record that no handler adds to. -/
def builtins (r : Record) : List Leaf :=
  (r.time.toList.map fun t => ⟨[], "time", .basic .time t⟩) ++
    [⟨[], "level", .string (levelString r.level)⟩, ⟨[], "msg", .string r.message⟩]

instance : Handler JSONHandler where
  enabled _ level := 0 ≤ level
  handle h r := builtins r ++ h.preformatted ++ r.attrs.flatMap (leaves h.groups)
  withAttrs h attrs := { h with preformatted := h.preformatted ++ attrs.flatMap (leaves h.groups) }
  withGroup h name := { h with groups := h.groups ++ [name] }

namespace Logger

variable {H : Type} [Handler H]

/-- `Logger.With` -/
def withAttrs (h : H) (attrs : List (Attr Value)) : H :=
  if attrs.isEmpty then h else Handler.withAttrs h attrs

def withGroup (h : H) (name : String) : H := if name = "" then h else Handler.withGroup h name

def log (h : H) (time : Option String) (level : Int) (message : String)
    (attrs : List (Attr Value)) : List Leaf :=
  if Handler.enabled h level
    then Handler.handle h (Record.addAttrs ⟨time, level, message, []⟩ attrs) else []

end Logger

/-- What makes one logger of another. -/
inductive Call where
  | withAttrs (attrs : List (Attr Value))
  | withGroup (name : String)

def Call.on {H : Type} [Handler H] (h : H) : Call → H
  | withAttrs attrs => Logger.withAttrs h attrs
  | withGroup name => Logger.withGroup h name

/-- The logger that a chain of calls makes. -/
def build {H : Type} [Handler H] (h : H) (calls : List Call) : H := calls.foldl Call.on h

end Slog
