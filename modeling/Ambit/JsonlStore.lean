import Ambit.Lib.Journal
import Ambit.Lib.JsonBalance

/-! `jsonlStore.ts`: one JSON object a line, appended on every save and read back at the start. A file
is the bytes it holds: decoding them as UTF-8 touches no ASCII byte, and so neither the line breaks
nor which lines parse. -/

namespace Ambit

open Json

variable {T : Type}

/-- `appendJsonLine`; an absent file is created. -/
def appendJsonLine (file : Option Text) (value : Value) : Option Text :=
  some (file.getD [] ++ (stringify value ++ [0x0A]))

/-- `line.trim().length === 0`. A line of other white space than this is kept here, and does not
parse. -/
def isBlankLine (line : Text) : Bool :=
  line.all fun b => b = 0x20 || (0x09 ≤ b && b ≤ 0x0D)

/-- `revive` is `none` where it throws; the lines that fail are skipped. -/
def rehydrateJsonLines (revive : Value → Option T) : Option Text → List T
  | none => []
  | some file =>
    let lines := (file.splitOn 0x0A).filter fun line => !isBlankLine line
    lines.filterMap fun line => (parse line).bind revive

/-- A whole line gives what it revives to. -/
theorem rehydrateJsonLines_line {revive : Value → Option T} {text : Text}
    (hbreak : (0x0A : UInt8) ∉ text) (hblank : isBlankLine text = false) (rest : Text) :
    rehydrateJsonLines revive (some (text ++ 0x0A :: rest)) =
      ((parse text).bind revive).toList ++ rehydrateJsonLines revive (some rest) := by
  simp only [rehydrateJsonLines, List.splitOn_append_cons_self_of_not_mem hbreak,
    List.filter_cons, hblank, Bool.not_false, if_true, List.filterMap_cons]
  cases (parse text).bind revive <;> rfl

theorem stringify_object_not_blank (members : List (Text × Value)) :
    isBlankLine (stringify (.object members)) = false := by
  obtain ⟨text, htext, -⟩ := stringify_object members
  rw [htext]
  rfl

/-- A file of whole lines, each an object. -/
def objectLines (objects : List (List (Text × Value))) : Text :=
  objects.flatMap fun members => stringify (.object members) ++ [0x0A]

theorem appendJsonLine_objectLines {file : Option Text} {objects : List (List (Text × Value))}
    (h : file.getD [] = objectLines objects) (members : List (Text × Value)) :
    (appendJsonLine file (.object members)).getD [] = objectLines (objects ++ [members]) := by
  simp [appendJsonLine, h, objectLines]

theorem rehydrate_objectLines {revive : Value → Option T} {file : Option Text}
    {objects : List (List (Text × Value))} (h : file.getD [] = objectLines objects) :
    rehydrateJsonLines revive file = objects.filterMap fun members => revive (.object members) := by
  have hsome : rehydrateJsonLines revive file =
      rehydrateJsonLines revive (some (objectLines objects)) := by
    rw [← h]
    cases file <;> rfl
  rw [hsome]
  clear h hsome
  induction objects with
  | nil => rfl
  | cons members objects ih =>
    have hcons : objectLines (members :: objects) =
        stringify (.object members) ++ 0x0A :: objectLines objects := by
      simp [objectLines]
    rw [hcons, rehydrateJsonLines_line (newline_not_mem_stringify _)
      (stringify_object_not_blank members), parse_stringify, Option.bind_some, ih,
      List.filterMap_cons]
    cases revive (.object members) <;> rfl

/-- The lines of such a file are the texts of the objects, and the empty rest. -/
theorem splitOn_objectLines (objects : List (List (Text × Value))) :
    (objectLines objects).splitOn 0x0A =
      objects.map (fun members => stringify (.object members)) ++ [[]] := by
  induction objects with
  | nil => rfl
  | cons members objects ih =>
    have hcons : objectLines (members :: objects) =
        stringify (.object members) ++ 0x0A :: objectLines objects := by
      simp [objectLines]
    rw [hcons, List.splitOn_append_cons_self_of_not_mem (newline_not_mem_stringify _), ih]
    rfl

/-- How a store writes its records, as objects, and revives them. -/
structure RecordFormat (T : Type) where
  members : T → List (Text × Value)
  revive : Value → Option T
  revive_members : ∀ t, revive (.object (members t)) = some t

namespace RecordFormat

variable (fmt : RecordFormat T)

def append (file : Option Text) (t : T) : Option Text := appendJsonLine file (.object (fmt.members t))

def rehydrate (file : Option Text) : List T := rehydrateJsonLines fmt.revive file

/-- A record as it is written. -/
def line (t : T) : Text := stringify (.object (fmt.members t))

def lines (ts : List T) : Text := ts.flatMap fun t => fmt.line t ++ [0x0A]

/-! ## Reading lines -/

variable {fmt} {text rest : Text} {t : T} {ts : List T}

theorem parse_line (t : T) : (parse (fmt.line t)).bind fmt.revive = some t := by
  rw [line, parse_stringify, Option.bind_some, fmt.revive_members]

theorem line_not_blank (t : T) : isBlankLine (fmt.line t) = false := stringify_object_not_blank _

theorem newline_not_mem_line (t : T) : (0x0A : UInt8) ∉ fmt.line t := newline_not_mem_stringify _

/-- A whole line gives its record, if it parses to one. -/
theorem rehydrate_line (hbreak : (0x0A : UInt8) ∉ text) (hblank : isBlankLine text = false)
    (rest : Text) : fmt.rehydrate (some (text ++ 0x0A :: rest)) =
      ((parse text).bind fmt.revive).toList ++ fmt.rehydrate (some rest) :=
  rehydrateJsonLines_line hbreak hblank rest

theorem rehydrate_lines (ts : List T) (rest : Text) :
    fmt.rehydrate (some (fmt.lines ts ++ rest)) = ts ++ fmt.rehydrate (some rest) := by
  induction ts with
  | nil => rfl
  | cons t ts ih =>
    have hsplit : fmt.lines (t :: ts) ++ rest = fmt.line t ++ 0x0A :: (fmt.lines ts ++ rest) := by
      simp [lines]
    rw [hsplit, rehydrate_line (newline_not_mem_line t) (line_not_blank t), parse_line, ih]
    rfl

/-- Text without a line break is one line. -/
theorem rehydrate_unterminated (hbreak : (0x0A : UInt8) ∉ text) :
    fmt.rehydrate (some text) = if isBlankLine text then []
      else ((parse text).bind fmt.revive).toList := by
  simp only [rehydrate, rehydrateJsonLines, List.splitOn_eq_singleton hbreak, List.filter_cons,
    List.filter_nil]
  cases isBlankLine text
  · cases h : (parse text).bind fmt.revive <;> simp [h]
  · rfl

theorem foldl_append (text : Text) (ts : List T) :
    ts.foldl fmt.append (some text) = some (text ++ fmt.lines ts) := by
  induction ts generalizing text with
  | nil => simp [lines]
  | cons t ts ih =>
    rw [List.foldl_cons]
    show ts.foldl fmt.append (some (text ++ (fmt.line t ++ [0x0A]))) = _
    rw [ih]
    simp [lines]

/-! ## A torn write -/

variable (fmt) in
/-- The file after a crash that left `n` bytes of a line. -/
def torn (complete : List T) (t : T) (n : ℕ) : Text := fmt.lines complete ++ (fmt.line t).take n

variable (fmt) in
/-- After a restart, some appends and a second restart, the records that were complete before the
crash and those appended after it are read back in order; the torn one may be, in its place. -/
def Recovers (complete : List T) (t : T) (n : ℕ) (appended : List T) : Prop :=
  fmt.rehydrate (appended.foldl fmt.append (some (fmt.torn complete t n))) ∈
    [complete ++ appended, complete ++ t :: appended]

instance [DecidableEq T] {complete appended : List T} {n : ℕ} :
    Decidable (fmt.Recovers complete t n appended) := inferInstanceAs (Decidable (_ ∈ [_, _]))

/-- The torn line is read as its record, or skipped. -/
theorem rehydrate_torn_line (t : T) (n : ℕ) :
    fmt.rehydrate (some ((fmt.line t).take n)) = if (fmt.line t).length ≤ n then [t] else [] := by
  have hbreak : (0x0A : UInt8) ∉ (fmt.line t).take n :=
    fun hmem => newline_not_mem_line t (List.mem_of_mem_take hmem)
  by_cases hn : (fmt.line t).length ≤ n
  · rw [if_pos hn, List.take_of_length_le hn]
    rw [rehydrate_unterminated (newline_not_mem_line t), line_not_blank, parse_line]
    rfl
  · rw [if_neg hn, rehydrate_unterminated hbreak]
    have hparse : parse ((fmt.line t).take n) = none := parse_torn (Nat.lt_of_not_le hn)
    rw [hparse]
    split <;> rfl

/-- The first restart after a crash loses at most the torn record. -/
theorem rehydrate_torn (complete : List T) (t : T) (n : ℕ) :
    fmt.rehydrate (some (fmt.torn complete t n)) =
      complete ++ if (fmt.line t).length ≤ n then [t] else [] := by
  rw [torn, rehydrate_lines, rehydrate_torn_line]

/-- The next append goes on with the torn line, and the two are skipped as one. -/
theorem rehydrate_torn_append (complete : List T) (t a : T) {n : ℕ} (hn : 0 < n)
    (appended : List T) :
    fmt.rehydrate ((a :: appended).foldl fmt.append (some (fmt.torn complete t n))) =
      complete ++ appended := by
  have hbreak : (0x0A : UInt8) ∉ (fmt.line t).take n ++ fmt.line a := by
    rw [List.mem_append]
    rintro (hmem | hmem)
    · exact newline_not_mem_line t (List.mem_of_mem_take hmem)
    · exact newline_not_mem_line a hmem
  have hblank : isBlankLine ((fmt.line t).take n ++ fmt.line a) = false := by
    rw [isBlankLine, List.all_append]
    exact Bool.and_eq_false_iff.mpr (.inr (line_not_blank a))
  have hparse : parse ((fmt.line t).take n ++ fmt.line a) = none := by
    rcases Nat.lt_or_ge n (fmt.line t).length with hlt | hle
    · exact parse_torn_append hn hlt
    · rw [List.take_of_length_le hle]
      exact parse_stringify_append _
  have hsplit : fmt.torn complete t n ++ fmt.lines (a :: appended) = fmt.lines complete ++
      ((fmt.line t).take n ++ fmt.line a ++ 0x0A :: (fmt.lines appended ++ [])) := by
    simp [torn, lines]
  rw [foldl_append, hsplit, rehydrate_lines, rehydrate_line hbreak hblank, hparse, rehydrate_lines]
  exact congrArg (complete ++ ·) (List.append_nil _)

/-- **Torn-write recovery.** The records survive a crash and the appends after it exactly if the
crash left nothing of the torn line, or nothing was appended. -/
theorem recovers_iff (fmt : RecordFormat T) (complete : List T) (t : T) (n : ℕ) (appended : List T) :
    fmt.Recovers complete t n appended ↔ n = 0 ∨ appended = [] := by
  rw [Recovers, List.mem_pair]
  constructor
  · intro h
    by_contra hlost
    obtain ⟨hn, happended⟩ := not_or.mp hlost
    obtain ⟨a, rest, rfl⟩ := List.exists_cons_of_ne_nil happended
    rw [rehydrate_torn_append complete t a (Nat.pos_of_ne_zero hn) rest] at h
    -- one record too few is read back
    rcases h with h | h
    all_goals
      have hlength := congrArg List.length (List.append_cancel_left h)
      simp only [List.length_cons] at hlength
      omega
  · rintro (rfl | rfl)
    · left
      rw [foldl_append, torn, List.take_zero, List.append_nil, rehydrate_lines]
      rw [← List.append_nil (fmt.lines appended), rehydrate_lines]
      exact congrArg (complete ++ ·) (List.append_nil _)
    · rw [List.foldl_nil, rehydrate_torn]
      split
      · exact .inr rfl
      · exact .inl rfl

/-- Records with one field. -/
def sampleFormat : RecordFormat Text where
  members s := [([0x6E], .string s)]
  revive
    | .object [(_, .string s)] => some s
    | _ => none
  revive_members _ := rfl

/-- A crash leaves the first byte of a record, and the next record is lost with it. -/
theorem not_recovers : ¬ sampleFormat.Recovers [[0x61]] [0x62] 1 [[0x63]] := by
  decide +kernel

end RecordFormat

end Ambit
