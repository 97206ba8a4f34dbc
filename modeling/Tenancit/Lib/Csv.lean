import Mathlib.Data.List.Basic
import Mathlib.Tactic.Common

/-!
Reading comma-separated values: records end in a line feed, a field in quotes may hold anything
with its own quotes doubled, and a field without quotes holds no quote, comma or line end. A
writer that keeps to this is read back.
-/
namespace Csv

inductive Mode where
  | start
  | plain
  | quoted
  | closing
  deriving DecidableEq

/-- What has been read: the records, the fields of the present one, and the present field. -/
structure State where
  records : List (List String) := []
  fields : List String := []
  field : List Char := []
  mode : Mode := .start

def State.push (s : State) (mode : Mode) (c : Char) : State :=
  { s with field := s.field ++ [c], mode := mode }

def State.endField (s : State) : State :=
  { s with fields := s.fields ++ [String.ofList s.field], field := [], mode := .start }

def State.endRecord (s : State) : State :=
  { records := s.records ++ [s.fields ++ [String.ofList s.field]], fields := [],
    field := [], mode := .start }

/-- Outside of quotes a comma ends the field, and a line feed the record. -/
def separate (s : State) (c : Char) : Option State :=
  if c = ',' then some s.endField else if c = '\n' then some s.endRecord else none

/-- A character without a meaning of its own. -/
def Plain (c : Char) : Prop := c ≠ '"' ∧ c ≠ ',' ∧ c ≠ '\n' ∧ c ≠ '\r'

instance (c : Char) : Decidable (Plain c) := inferInstanceAs (Decidable (_ ∧ _ ∧ _ ∧ _))

def step (s : State) (c : Char) : Option State :=
  match s.mode with
  | .start =>
    if c = '"' then some { s with
      mode := .quoted } else if Plain c then some (s.push .plain c) else separate s c
  | .plain => if Plain c then some (s.push .plain c) else separate s c
  | .quoted => if c = '"' then some { s with mode := .closing } else some (s.push .quoted c)
  | .closing => if c = '"' then some (s.push .quoted c) else separate s c

/-- The records of a text that ends with the last one. -/
def read (cs : List Char) : Option (List (List String)) :=
  (cs.foldlM step {}).bind fun s => if s.mode = .start ∧ s.fields = [] ∧
  s.field = [] then some s.records else none

/-- A field in quotes. -/
def quote (cs : List Char) : List Char :=
  '"' :: (cs.flatMap (fun c => if c = '"' then ['"', '"'] else [c]) ++ ['"'])

variable {s : State} {cs : List Char} {sep c : Char}

theorem foldlM_cons_some {s' : State} (h : step s c = some s') :
    (c :: cs).foldlM step s = cs.foldlM step s' := by
  rw [List.foldlM_cons, h]
  rfl

theorem read_plain (hmode : s.mode = .start ∨ s.mode = .plain) (h : ∀ c ∈ cs, Plain c)
    (hsep : sep = ',' ∨ sep = '\n') :
    (cs ++ [sep]).foldlM step s = separate { s with field := s.field ++ cs } sep := by
  induction cs generalizing s with
  | nil =>
    have hquote : sep ≠ '"' := by rcases hsep with rfl | rfl <;> decide
    have hplain : ¬Plain sep := by rcases hsep with rfl | rfl <;> decide
    have hstep : step s sep = separate s sep := by
      unfold step
      rcases hmode with hmode | hmode
      · simp only [hmode, if_neg hquote, if_neg hplain]
      · simp only [hmode, if_neg hplain]
    simp [hstep]
  | cons c cs ih =>
    have hc := h c (.head _)
    have hstep : step s c = some (s.push .plain c) := by
      unfold step
      rcases hmode with hmode | hmode
      · simp only [hmode, if_neg hc.1, if_pos hc]
      · simp only [hmode, if_pos hc]
    rw [List.cons_append, foldlM_cons_some hstep, ih (.inr rfl) fun d hd => h d (.tail _ hd)]
    simp [State.push, separate, State.endField, State.endRecord]

/-- The rest of a field in quotes, and what ends it. -/
theorem read_quoted (hmode : s.mode = .quoted) :
    (cs.flatMap (fun c => if c = '"' then ['"', '"'] else [c]) ++ ['"', sep]).foldlM step s =
      step { s with field := s.field ++ cs, mode := .closing } sep := by
  induction cs generalizing s with
  | nil =>
    have hstep : step s '"' = some { s with mode := .closing } := by
      unfold step
      simp only [hmode, if_true]
    rw [List.flatMap_nil, List.nil_append, foldlM_cons_some hstep, List.append_nil]
    simp
  | cons c cs ih =>
    rw [List.flatMap_cons, List.append_assoc]
    have hpush : (s.push .quoted c).field ++ cs = s.field ++ c :: cs := by simp [State.push]
    by_cases hc : c = '"'
    · have hfirst : step s '"' = some { s with mode := .closing } := by
        unfold step
        simp only [hmode, if_true]
      have hsecond : step { s with mode := .closing } '"' = some (s.push .quoted c) := by
        unfold step
        simp only [if_true, hc]
        rfl
      rw [if_pos hc, List.cons_append, foldlM_cons_some hfirst, List.cons_append,
        foldlM_cons_some hsecond, List.nil_append,
        ih rfl, hpush]
      rfl
    · have hstep : step s c = some (s.push .quoted c) := by
        unfold step
        simp only [hmode, if_neg hc]
      rw [if_neg hc, List.cons_append, foldlM_cons_some hstep, List.nil_append, ih rfl, hpush]
      rfl

/-- How a field may be written. -/
def Writes (f : String) (cs : List Char) : Prop :=
  cs = quote f.toList ∨ cs = f.toList ∧ ∀ c ∈ cs, Plain c

theorem read_field {f : String} (h : Writes f cs) (hmode : s.mode = .start) (hfield : s.field = [])
    (hsep : sep = ',' ∨ sep = '\n') :
    (cs ++ [sep]).foldlM step s = separate { s with field := f.toList } sep := by
  have hquote : sep ≠ '"' := by rcases hsep with rfl | rfl <;> decide
  obtain rfl | ⟨rfl, hplain⟩ := h
  · have hopen : step s '"' = some { s with mode := .quoted } := by
      unfold step
      simp only [hmode, if_true]
    rw [quote, List.cons_append, foldlM_cons_some hopen, List.append_assoc, List.singleton_append,
      read_quoted rfl, hfield,
      List.nil_append]
    unfold step
    simp only [if_neg hquote]
    rfl
  · rw [read_plain (.inl hmode) hplain hsep, hfield, List.nil_append]

/-- A record: its fields with commas between them. -/
def record (fields : List (List Char)) : List Char := (fields.intersperse [',']).flatten ++ ['\n']

theorem read_record {fs : List String} {css : List (List Char)} {records : List (List String)}
    {fields : List String} (h : List.Forall₂ Writes fs css) (hne : fs ≠ []) :
    (record css).foldlM step { records := records, fields := fields } =
      some { records := records ++ [fields ++ fs] } := by
  induction h generalizing fields with
  | nil => exact absurd rfl hne
  | @cons f cs fs css hf hrest ih =>
    cases hrest with
    | nil =>
      have hrecord : record [cs] = cs ++ ['\n'] := by simp [record]
      rw [hrecord, read_field hf rfl rfl (.inr rfl)]
      simp [separate, State.endRecord]
    | @cons f' cs' fs' css' hf' hrest' =>
      have hrecord : record (cs :: cs' :: css') = (cs ++ [',']) ++
        record (cs' :: css') := by simp [record]
      rw [hrecord, List.foldlM_append, read_field hf rfl rfl (.inl rfl)]
      have hend : separate { records := records, fields := fields, field := f.toList } ',' =
          some { records := records, fields := fields ++ [f] } := by
        simp [separate, State.endField]
      rw [hend]
      exact (ih (List.cons_ne_nil _ _)).trans (by simp)

/-- Records that are written are read back. -/
theorem read_records {rows : List (List String)} {texts : List (List (List Char))}
    (h : List.Forall₂ (fun fs css => fs ≠ [] ∧ List.Forall₂ Writes fs css) rows texts) :
    read (texts.flatMap record) = some rows := by
  have hall : ∀ records, (texts.flatMap record).foldlM step { records := records } =
      some { records := records ++ rows } := by
    induction h with
    | nil => simp
    | cons hfirst _ ih =>
      intro records
      rw [List.flatMap_cons, List.foldlM_append, read_record hfirst.2 hfirst.1]
      exact (ih _).trans (by simp)
  rw [read, hall]
  simp

end Csv
