import Mathlib.Data.List.Basic
import Tenancit.Telemetry.Logging

/-!
What the redacting handler lets through. Each leaf put out is seen beside the attribute it
comes from, so that it can be said which attributes show as the marker or as a type name.
-/
namespace Tenancit.Telemetry

open Slog

/-- A leaf put out: the groups it is in, the attribute it comes from, resolved, and what it
shows. -/
structure Emission where
  groups : List String
  source : Attr Value
  shown : Attr Value

def Emission.leaf (e : Emission) : Leaf := ⟨e.groups, e.shown.key, e.shown.value⟩

/-- What redaction is for. Under a sensitive key or inside a group with one, a leaf shows the
marker; of an error only the type is seen. -/
structure Emission.Redacted (e : Emission) : Prop where
  marked : (∃ key ∈ e.groups ++ [e.shown.key], Sensitive key) → e.shown.value = redacted
  own : Sensitive e.source.key → e.shown.value = redacted ∨ e.source.value.IsError
  typed : e.source.value.IsError ∨ ErrKey e.source.key →
    e.shown = ⟨"error_type", .string e.source.value.typeName⟩

/-- What an attribute that is not taken apart puts out: nothing where it stands for nothing. -/
def whole (groups : List String) (a : Attr Value) : List Emission :=
  if isEmpty (sanitizeLogAttribute a) then []
    else [⟨groups, ⟨a.key, a.value.resolve⟩, sanitizeLogAttribute a⟩]

/-- The leaves of an attribute, inside the groups already open. -/
def emissions (groups : List String) (a : Attr Value) : List Emission :=
  match _h : a.value.resolve with
  | .group as =>
    if Plain a.key then as.attach.flatMap fun b =>
      emissions (within groups a.key) b.1 else whole groups a
  | _ => whole groups a
termination_by sizeOf a.value
decreasing_by exact Value.sizeOf_child ‹_› b.2

section attributes

variable {groups : List String} {a : Attr Value} {as : List (Attr Value)} {e : Emission}

theorem emissions_takenApart (h : TakenApart a as) :
    emissions groups a = as.flatMap (emissions (within groups a.key)) := by
  obtain ⟨hgroup, hkey⟩ := h
  rw [emissions]
  split
  case _ as' h' =>
    cases hgroup.symm.trans h'
    rw [if_pos hkey]
    exact (List.flatMap_subtype fun _ _ => rfl).trans (congrArg _ List.unattach_attach)
  case _ h' => exact absurd hgroup (h' as)

theorem emissions_whole (h : ∀ as, ¬TakenApart a as) : emissions groups a = whole groups a := by
  rw [emissions]
  split
  case _ as hgroup => exact if_neg fun hkey => h as ⟨hgroup, hkey⟩
  case _ => rfl

/-- The leaves of a sanitized attribute are these. -/
theorem leaves_sanitize (groups : List String) (a : Attr Value) :
    leaves groups (sanitizeLogAttribute a) = (emissions groups a).map Emission.leaf := by
  induction a using attr_induction generalizing groups with
  | h a ih =>
    by_cases happart : ∃ as, TakenApart a as
    · obtain ⟨as, happart⟩ := happart
      rw [sanitize_takenApart happart, leaves_groupAttr,
        emissions_takenApart happart, List.flatMap_map,
        List.map_flatMap]
      exact List.flatMap_congr fun b hb => ih as happart.1 b hb _
    · have hwhole := not_exists.mp happart
      obtain ⟨hresolve, hleaf⟩ := (sanitized hwhole).leaf
      rw [emissions_whole hwhole, leaves_leaf hresolve hleaf, whole]
      split <;> rfl

/-- Outside sensitive groups an attribute that is not taken apart is redacted. -/
theorem whole_redacted (hgroups : ∀ key ∈ groups, ¬Sensitive key) (h : ∀ as, ¬TakenApart a as)
    (he : e ∈ whole groups a) : e.Redacted := by
  have hsanitized := sanitized h
  rw [whole] at he
  split at he
  · cases he
  obtain rfl := List.mem_singleton.mp he
  generalize sanitizeLogAttribute a = shown at hsanitized
  have hinside : (∃ key ∈ groups ++ [shown.key], Sensitive key) → Sensitive shown.key := by
    rintro ⟨key, hkey, hsensitive⟩
    rcases List.mem_append.mp hkey with hkey | hkey
    · exact absurd hsensitive (hgroups key hkey)
    · rwa [List.mem_singleton.mp hkey] at hsensitive
  cases hsanitized with
  | typed h =>
    have hname : ¬Sensitive "error_type" := by decide +kernel
    exact ⟨fun hs => absurd (hinside hs) hname, fun hs =>
      .inr (h.resolve_right fun hk => hk.not_sensitive hs),
      fun _ => rfl⟩
  | marked herror hkey hsensitive =>
    exact ⟨fun _ => rfl, fun _ => .inl rfl, fun h => absurd h (not_or.mpr ⟨herror, hkey⟩)⟩
  | kept herror hkey hleaf =>
    exact ⟨fun hs => absurd (hinside hs) hkey.notSensitive, fun hs => absurd hs hkey.notSensitive,
      fun h => absurd h (not_or.mpr ⟨herror, hkey.notErr⟩)⟩

/-- Outside sensitive groups every leaf of an attribute is redacted. -/
theorem emissions_redacted (hgroups : ∀ key ∈ groups, ¬Sensitive key)
    (he : e ∈ emissions groups a) : e.Redacted := by
  induction a using attr_induction generalizing groups with
  | h a ih =>
    by_cases happart : ∃ as, TakenApart a as
    · obtain ⟨as, happart⟩ := happart
      rw [emissions_takenApart happart] at he
      obtain ⟨b, hb, he⟩ := List.mem_flatMap.mp he
      refine ih as happart.1 b hb (fun key hkey => ?_) he
      rcases mem_within.mp hkey with hkey | ⟨rfl, _⟩
      · exact hgroups key hkey
      · exact happart.2.notSensitive
    · have hwhole := not_exists.mp happart
      rw [emissions_whole hwhole] at he
      exact whole_redacted hgroups hwhole he

/-- A group made inline of attributes shows them inside its name. -/
theorem emissions_groupAttr {name : String} (h : Plain name) :
    emissions groups (groupAttr name as) =
      (as.filter fun a => !a.value.isEmptyGroup).flatMap (emissions (within groups name)) :=
  emissions_takenApart (a := groupAttr name as) ⟨rfl, h⟩

end attributes

section records

def rawAttr : Attr Value := ⟨"value", .string "raw"⟩

/-- Its own key lets the attribute through. -/
theorem rawAttr_plain : Plain rawAttr.key := by decide +kernel

/-- The groups open after a chain of calls. -/
def opened (groups : List String) : List Call → List String
  | [] => groups
  | .withAttrs _ :: calls => opened groups calls
  | .withGroup name :: calls => opened (within groups name) calls

/-- The attributes attached by a chain of calls, each with the groups open there. -/
def attached (groups : List String) : List Call → List (List String × Attr Value)
  | [] => []
  | .withAttrs attrs :: calls => attrs.map (groups, ·) ++ attached groups calls
  | .withGroup name :: calls => attached (within groups name) calls

/-- What a record puts out before its own attributes: the leaves every record has, then those
of the attributes attached. -/
def preamble (calls : List Call) (time : Option String) (level : Int) (message : String) :
    List Emission :=
  ((builtins ⟨time, level, message, []⟩).map fun l =>
    ⟨l.groups, ⟨l.key, l.value⟩, ⟨l.key, l.value⟩⟩) ++
    (attached [] calls).flatMap fun p => emissions p.1 p.2

def logged (calls : List Call) (time : Option String) (level : Int) (message : String)
    (args : List (Attr Value)) : List Emission :=
  if 0 ≤ level then
    preamble calls time level message ++
      (args.filter fun a => !a.value.isEmptyGroup).flatMap (emissions (opened [] calls))
  else []

variable {groups : List String} {calls more : List Call} {args : List (Attr Value)}
  {time : Option String} {level : Int} {message name : String}

theorem opened_append : opened groups (calls ++ more) = opened (opened groups calls) more := by
  induction calls generalizing groups with
  | nil => rfl
  | cons call calls ih => cases call <;> exact ih

theorem attached_append :
    attached groups (calls ++ more) = attached groups calls ++
    attached (opened groups calls) more := by
  induction calls generalizing groups with
  | nil => rfl
  | cons call calls ih =>
    cases call with
    | withAttrs attrs =>
      show attrs.map _ ++ attached groups (calls ++ more) = _
      rw [ih, ← List.append_assoc]
      rfl
    | withGroup name => exact ih

/-- A call moves the logger as its groups and attributes say. -/
theorem build_eq (h : RedactingHandler) (calls : List Call) :
    build h calls = ⟨⟨opened h.inner.groups calls, h.inner.preformatted ++
      (attached h.inner.groups calls).flatMap fun p => (emissions p.1 p.2).map Emission.leaf⟩⟩ := by
  induction calls generalizing h with
  | nil => simp [build, opened, attached]
  | cons call calls ih =>
    show build (call.on h) calls = _
    rw [ih]
    cases call with
    | withAttrs attrs =>
      cases attrs with
      | nil => rfl
      | cons a attrs =>
        simp [Call.on, Logger.withAttrs, Handler.withAttrs, opened, attached,
          List.flatMap_map, leaves_sanitize]
    | withGroup name =>
      by_cases hname : name = "" <;>
        simp [Call.on, Logger.withGroup, Handler.withGroup, opened, attached, within, hname]

/-- A record sanitized puts out the leaves of its sanitized attributes. -/
theorem handle_eq (h : RedactingHandler) (r : Record) :
    Handler.handle h r = builtins r ++ h.inner.preformatted ++
      r.attrs.flatMap fun a => (emissions h.inner.groups a).map Emission.leaf := by
  show builtins r ++ h.inner.preformatted ++
    ((r.attrs.map sanitizeLogAttribute).filter fun a => !a.value.isEmptyGroup).flatMap
      (leaves h.inner.groups) = _
  rw [leaves_nonempty, List.flatMap_map]
  simp only [leaves_sanitize]

theorem log_eq (calls : List Call) (time : Option String) (level : Int) (message : String)
    (args : List (Attr Value)) :
    Logger.log (build newRedactingJSONHandler calls) time level message args =
      (logged calls time level message args).map Emission.leaf := by
  rw [Logger.log, logged, handle_eq, build_eq]
  show (if decide (0 ≤ level) = true then _ else _) = _
  by_cases hlevel : 0 ≤ level
  · rw [if_pos (decide_eq_true hlevel), if_pos hlevel]
    have hbuiltins : ((builtins ⟨time, level, message, []⟩).map fun l =>
        (⟨l.groups, ⟨l.key, l.value⟩, ⟨l.key, l.value⟩⟩ : Emission)).map Emission.leaf =
          builtins ⟨time, level, message, []⟩ := by
      rw [List.map_map]
      exact List.map_id _
    rw [preamble, List.map_append, List.map_append, hbuiltins, List.map_flatMap, List.map_flatMap]
    rfl
  · rw [if_neg (by simpa using hlevel), if_neg hlevel]
    rfl

theorem mem_opened {key : String} :
    key ∈ opened groups calls ↔ key ∈ groups ∨ key ≠ "" ∧ Call.withGroup key ∈ calls := by
  induction calls generalizing groups with
  | nil => simp [opened]
  | cons call calls ih =>
    cases call with
    | withAttrs attrs => simp [opened, ih]
    | withGroup name =>
      rw [opened, ih, mem_within, List.mem_cons, Call.withGroup.injEq]
      constructor
      · rintro ((h | ⟨rfl, h⟩) | ⟨h, hmem⟩)
        · exact .inl h
        · exact .inr ⟨h, .inl rfl⟩
        · exact .inr ⟨h, .inr hmem⟩
      · rintro (h | ⟨h, rfl | hmem⟩)
        · exact .inl (.inl h)
        · exact .inl (.inr ⟨rfl, h⟩)
        · exact .inr ⟨h, hmem⟩

/-- An attribute is attached inside groups that the chain opens. -/
theorem groups_of_attached {p : List String × Attr Value} (hp : p ∈ attached groups calls)
    {key : String} (hkey : key ∈ p.1) : key ∈ groups ∨ Call.withGroup key ∈ calls := by
  induction calls generalizing groups with
  | nil => cases hp
  | cons call calls ih =>
    cases call with
    | withAttrs attrs =>
      rcases List.mem_append.mp hp with hp | hp
      · obtain ⟨a, _, rfl⟩ := List.mem_map.mp hp
        exact .inl hkey
      · exact (ih hp).imp_right (List.mem_cons_of_mem _)
    | withGroup name =>
      rcases ih hp with h | h
      · rcases mem_within.mp h with h | ⟨rfl, _⟩
        · exact .inl h
        · exact .inr List.mem_cons_self
      · exact .inr (List.mem_cons_of_mem _ h)

/-- The leaves of the record itself need no redaction. -/
theorem builtins_redacted {r : Record} {l : Leaf} (hl : l ∈ builtins r) :
    Emission.Redacted ⟨l.groups, ⟨l.key, l.value⟩, ⟨l.key, l.value⟩⟩ := by
  have hplain : l.groups = [] ∧ Plain l.key ∧ ¬l.value.IsError := by
    have htime : Plain "time" := by decide +kernel
    have hlevel : Plain "level" := by decide +kernel
    have hmsg : Plain "msg" := by decide +kernel
    simp only [builtins, List.mem_append, List.mem_map, List.mem_cons,
      List.not_mem_nil, or_false] at hl
    rcases hl with ⟨t, _, rfl⟩ | rfl | rfl
    · exact ⟨rfl, htime, id⟩
    · exact ⟨rfl, hlevel, id⟩
    · exact ⟨rfl, hmsg, id⟩
  obtain ⟨hgroups, hkey, herror⟩ := hplain
  refine ⟨?_, fun h => absurd h hkey.notSensitive, fun h =>
    absurd h (not_or.mpr ⟨herror, hkey.notErr⟩)⟩
  rintro ⟨key, hmem, hsensitive⟩
  rw [hgroups] at hmem
  rw [List.mem_singleton.mp hmem] at hsensitive
  exact absurd hsensitive hkey.notSensitive

/-- Where no sensitive group is opened, every leaf of every record is redacted. -/
theorem logged_redacted (h : ∀ name, Call.withGroup name ∈ calls → ¬Sensitive name) {e : Emission}
    (he : e ∈ logged calls time level message args) : e.Redacted := by
  rw [logged] at he
  split at he
  · rcases List.mem_append.mp he with he | he
    · rcases List.mem_append.mp he with he | he
      · obtain ⟨l, hl, rfl⟩ := List.mem_map.mp he
        exact builtins_redacted hl
      · obtain ⟨p, hp, he⟩ := List.mem_flatMap.mp he
        refine emissions_redacted (fun key hkey => ?_) he
        exact h key ((groups_of_attached hp hkey).resolve_left List.not_mem_nil)
    · obtain ⟨a, _, he⟩ := List.mem_flatMap.mp he
      refine emissions_redacted (fun key hkey => ?_) he
      exact h key ((mem_opened.mp hkey).resolve_left List.not_mem_nil).2
  · cases he

/-- An attribute with a plain key and a text shows as it is, wherever it stands. -/
theorem emissions_text {key text : String} (hkey : Plain key) :
    emissions groups ⟨key, .string text⟩ =
      [⟨groups, ⟨key, .string text⟩, ⟨key, .string text⟩⟩] := by
  have hresolve : (Value.string text).resolve = .string text := rfl
  have hwhole : ∀ as, ¬TakenApart ⟨key, .string text⟩ as :=
    fun as h => nomatch hresolve.symm.trans h.1
  have hsanitized := sanitized hwhole
  rw [emissions_whole hwhole, whole]
  generalize sanitizeLogAttribute ⟨key, .string text⟩ = shown at hsanitized
  cases hsanitized with
  | typed h => exact absurd h (not_or.mpr ⟨id, hkey.notErr⟩)
  | marked _ _ h => exact absurd h hkey.notSensitive
  | kept => rfl

theorem emissions_raw : emissions groups rawAttr = [⟨groups, rawAttr, rawAttr⟩] :=
  emissions_text rawAttr_plain

/-- A group made inline under a name that is not plain shows as one leaf. -/
theorem emissions_hidden (groups : List String) (as : List (Attr Value)) (h : ¬Plain name) :
    ∃ e, emissions groups (groupAttr name as) = [e] ∧ (e.shown.value = redacted ∨
      e.shown.value = .string "[]slog.Attr") := by
  have hwhole : ∀ as', ¬TakenApart (groupAttr name as) as' := fun as' hapart => h hapart.2
  have hsanitized := sanitized hwhole
  rw [emissions_whole hwhole, whole]
  generalize sanitizeLogAttribute (groupAttr name as) = shown at hsanitized
  cases hsanitized with
  | typed => exact ⟨_, rfl, .inr rfl⟩
  | marked => exact ⟨_, rfl, .inl rfl⟩
  | kept _ hplain => exact absurd hplain h

theorem logged_one {a : Attr Value} (h : a.value.isEmptyGroup = false) :
    logged calls none 0 "" [a] = preamble calls none 0 "" ++ emissions (opened [] calls) a := by
  simp [logged, h]

/-- Inside a sensitive group that was opened by name, an attribute shows as it is. -/
theorem sensitive_leaks (hname : Call.withGroup name ∈ calls) (h : Sensitive name) :
    ∃ e ∈ logged calls none 0 "" [rawAttr], ¬e.Redacted := by
  have hopen : name ∈ opened [] calls := by
    refine mem_opened.mpr (.inr ⟨?_, hname⟩)
    rintro rfl
    exact absurd h (by decide +kernel)
  refine ⟨⟨opened [] calls, rawAttr, rawAttr⟩, ?_, fun hredacted => ?_⟩
  · rw [logged_one rfl, emissions_raw]
    exact List.mem_append_right _ (List.mem_singleton_self _)
  · have hmarked := hredacted.marked ⟨name, List.mem_append_left _ hopen, h⟩
    simp [rawAttr, redacted] at hmarked

/-- An inline group is left out when it is empty, and then it would have shown nothing. -/
theorem emissions_inline {as : List (Attr Value)} (h : Plain name) :
    ([groupAttr name as].filter fun a => !a.value.isEmptyGroup).flatMap (emissions groups) =
      (as.filter fun a => !a.value.isEmptyGroup).flatMap (emissions (within groups name)) := by
  rw [← emissions_groupAttr h]
  cases hempty : (groupAttr name as).value.isEmptyGroup with
  | false => simp [hempty]
  | true =>
    have hnone : (as.filter fun a => !a.value.isEmptyGroup) = [] := by
      rwa [groupAttr, Value.isEmptyGroup_groupValue, List.isEmpty_iff] at hempty
    rw [emissions_groupAttr h, hnone]
    simp [hempty]

theorem preamble_withGroup :
    preamble (calls ++ [.withGroup name]) time level message =
      preamble calls time level message := by
  rw [preamble, attached_append]
  exact congrArg _ (congrArg _ (List.append_nil _))

theorem opened_withGroup :
    opened groups (calls ++ [.withGroup name]) = within (opened groups calls) name := opened_append

theorem logged_inline (h : Plain name) :
    logged (calls ++ [.withGroup name]) time level message args =
      logged calls time level message [groupAttr name args] := by
  rw [logged, logged, preamble_withGroup, opened_withGroup, emissions_inline h]

theorem preamble_withAttrs : preamble (calls ++ [.withAttrs args]) time level message =
    preamble calls time level message ++ args.flatMap (emissions (opened [] calls)) := by
  have hattached : attached [] (calls ++ [.withAttrs args]) = attached [] calls ++
      args.map (opened [] calls, ·) := by
    rw [attached_append]
    exact congrArg _ (List.append_nil _)
  rw [preamble, hattached, List.flatMap_append, List.flatMap_map, ← List.append_assoc, preamble]

/-- To attach attributes and to log with them is the same, but for empty groups. -/
theorem logged_withAttrs (h : ∀ a ∈ args, a.value.isEmptyGroup = false) :
    logged (calls ++ [.withAttrs args]) time level message [] =
      logged calls time level message args := by
  have hfilter : (args.filter fun a => !a.value.isEmptyGroup) = args :=
    List.filter_eq_self.mpr fun a ha => by rw [h a ha]; rfl
  rw [logged, logged, hfilter, preamble_withAttrs]
  simp

/-- Under a name that is not plain the two ways to make a group differ. -/
theorem inline_differs (calls : List Call) (h : ¬Plain name) :
    ((logged (calls ++ [.withGroup name]) none 0 "" [rawAttr]).map Emission.leaf).map Leaf.value ≠
      ((logged calls none 0 "" [groupAttr name [rawAttr]]).map Emission.leaf).map Leaf.value := by
  obtain ⟨e, hinline, hshown⟩ := emissions_hidden (opened [] calls) [rawAttr] h
  rw [logged_one rfl, logged_one rfl, preamble_withGroup, opened_withGroup, hinline, emissions_raw]
  simp only [List.map_append, List.map_cons, List.map_nil, Emission.leaf, ne_eq,
    List.append_cancel_left_eq, List.cons.injEq,
    and_true]
  rintro hvalue
  rcases hshown with hshown | hshown <;> simp [← hvalue, rawAttr, redacted] at hshown

/-- A group attached inline shows what it shows when it is logged. -/
theorem logged_attached (hname : Plain name) (h : ∀ a ∈ args, a.value.isEmptyGroup = false) :
    logged (calls ++ [.withAttrs [groupAttr name args]]) time level message [] =
      logged calls time level message [groupAttr name args] := by
  cases args with
  | nil =>
    have hnone : [groupAttr name []].flatMap (emissions (opened [] calls)) = [] := by
      rw [List.flatMap_singleton, emissions_groupAttr hname]
      rfl
    rw [logged, logged, emissions_inline hname, preamble_withAttrs, hnone, List.append_nil]
    rfl
  | cons a args =>
    refine logged_withAttrs fun b hb => ?_
    obtain rfl := List.mem_singleton.mp hb
    rw [groupAttr, Value.isEmptyGroup_groupValue,
      List.filter_cons_of_pos (by rw [h a List.mem_cons_self]; rfl)]
    rfl

/-- The logger that a chain of calls makes of the redacting handler puts this out. -/
def put (calls : List Call) (time : Option String) (level : Int) (message : String)
    (args : List (Attr Value)) : List Leaf :=
  Logger.log (build newRedactingJSONHandler calls) time level message args

/-- Every leaf of every record is redacted. -/
def Redacts (calls : List Call) : Prop :=
  ∀ time level message args, ∀ e ∈ logged calls time level message args, e.Redacted

/-- Attributes logged in a group opened by name show the values that they show in an inline
group. -/
def SameLogged (calls : List Call) (name : String) : Prop :=
  ∀ time level message args,
  (put (calls ++ [.withGroup name]) time level message args).map Leaf.value =
    (put calls time level message [groupAttr name args]).map Leaf.value

/-- The same of attributes attached, none of which is an empty group. -/
def SameAttached (calls : List Call) (name : String) : Prop :=
  ∀ time level message attrs, (∀ a ∈ attrs, a.value.isEmptyGroup = false) →
    (put (calls ++ [.withGroup name] ++ [.withAttrs attrs]) time level message []).map Leaf.value =
      (put (calls ++ [.withAttrs [groupAttr name attrs]]) time level message []).map Leaf.value

theorem redacts_iff (calls : List Call) :
    Redacts calls ↔ ∀ name, Call.withGroup name ∈ calls → ¬Sensitive name := by
  constructor
  · intro h name hname hsensitive
    obtain ⟨e, he, hleaks⟩ := sensitive_leaks hname hsensitive
    exact hleaks (h _ _ _ _ e he)
  · intro h time level message args e he
    exact logged_redacted h he

theorem sameLogged_iff (calls : List Call) (name : String) :
    SameLogged calls name ↔ Plain name := by
  simp only [SameLogged, put, log_eq]
  constructor
  · intro h
    by_contra hplain
    exact inline_differs calls hplain (h none 0 "" [rawAttr])
  · intro hplain time level message args
    rw [logged_inline hplain]

theorem sameAttached_iff (calls : List Call) (name : String) :
    SameAttached calls name ↔ Plain name := by
  simp only [SameAttached, put, log_eq]
  constructor
  · intro h
    by_contra hplain
    have hraw : ∀ a ∈ [rawAttr], a.value.isEmptyGroup = false := by
      simp [rawAttr, Value.isEmptyGroup]
    have hgroup : ∀ a ∈ [groupAttr name [rawAttr]], a.value.isEmptyGroup = false := by
      simp [groupAttr, Value.isEmptyGroup_groupValue, hraw]
    have hvalues := h none 0 "" [rawAttr] hraw
    rw [logged_withAttrs hraw, logged_withAttrs hgroup] at hvalues
    exact inline_differs calls hplain hvalues
  · intro hplain time level message attrs h
    rw [logged_withAttrs h, logged_attached hplain h, logged_inline hplain]

/-- The handler redacts what is logged exactly where no group is opened under a sensitive
name, and such a group shows what an inline one shows exactly where its name is neither
sensitive nor that of an error. -/
theorem redaction_exact (calls : List Call) (name : String) :
    (∀ time level message args, put calls time level message args =
      (logged calls time level message args).map Emission.leaf) ∧
    (Redacts calls ↔ ∀ group, Call.withGroup group ∈ calls → ¬Sensitive group) ∧
    (SameLogged calls name ↔ Plain name) ∧ (SameAttached calls name ↔ Plain name) :=
  ⟨log_eq calls, redacts_iff calls, sameLogged_iff calls name, sameAttached_iff calls name⟩

/-- A token under a harmless key, in a group opened for tokens. -/
theorem withGroup_token_shown :
    Sensitive "token" ∧ ⟨["token"], "value", .string "raw"⟩ ∈
      put [.withGroup "token"] none 0 "" [rawAttr] ∧
      ¬Redacts [.withGroup "token"] ∧ ¬SameLogged [] "token" := by
  have htoken : Sensitive "token" := by decide +kernel
  refine ⟨htoken, ?_, fun h => (redacts_iff _).mp h "token" List.mem_cons_self htoken,
    fun h => ((sameLogged_iff _ _).mp h).notSensitive htoken⟩
  show _ ∈ Logger.log _ _ _ _ _
  rw [log_eq, logged_one rfl, emissions_raw]
  simp [Emission.leaf, opened, within, rawAttr]

end records

end Tenancit.Telemetry
