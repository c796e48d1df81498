import Mathlib.Data.List.Basic

/-! JSON text as bytes: values, the text that `JSON.stringify` writes for them and a parser that
reads a text byte by byte, with an explicit stack of the arrays and objects that are open. Texts are
UTF-8, and strings are kept as their UTF-8 bytes; every byte that the grammar speaks of is ASCII, so
what decoding makes of the other bytes never changes how a text is read. -/

namespace Json

abbrev Text := List UInt8

/-! ## Bytes -/

/-- What a byte means to the grammar. -/
inductive Kind where
  | quote | backslash | openBrace | closeBrace | openBracket | closeBracket | comma | colon
  | blank | plain
  deriving DecidableEq

def kind (b : UInt8) : Kind :=
  if b = 0x22 then .quote else if b = 0x5C then .backslash
  else if b = 0x7B then .openBrace else if b = 0x7D then .closeBrace
  else if b = 0x5B then .openBracket else if b = 0x5D then .closeBracket
  else if b = 0x2C then .comma else if b = 0x3A then .colon
  else if b = 0x20 ∨ b = 0x09 ∨ b = 0x0A ∨ b = 0x0D then .blank else .plain

theorem kind_eq_quote {b : UInt8} : kind b = .quote ↔ b = 0x22 := by
  unfold kind
  split_ifs <;> simp_all

theorem kind_eq_backslash {b : UInt8} : kind b = .backslash ↔ b = 0x5C := by
  unfold kind
  split_ifs <;> simp_all

def isDigit (b : UInt8) : Bool := 0x30 ≤ b && b ≤ 0x39

theorem kind_of_isDigit {b : UInt8} (h : isDigit b = true) : kind b = .plain := by
  have hne : ∀ c, isDigit c = false → b ≠ c := by
    rintro c hc rfl
    rw [h] at hc
    cases hc
  simp [kind, hne 0x22, hne 0x5C, hne 0x7B, hne 0x7D, hne 0x5B, hne 0x5D, hne 0x2C, hne 0x3A,
    hne 0x20, hne 0x09, hne 0x0A, hne 0x0D, isDigit]

/-! ## Numbers -/

/-- How far a number literal is read. -/
inductive NumberState where
  | start | minus | zero | integer | point | fraction | exponent | exponentSign | exponentDigits
  deriving DecidableEq

namespace NumberState

def step : NumberState → UInt8 → Option NumberState
  | .start, b =>
    if b = 0x2D then some .minus else if b = 0x30 then some .zero
    else if isDigit b then some .integer else none
  | .minus, b =>
    if b = 0x30 then some .zero else if isDigit b then some .integer else none
  | .zero, b =>
    if b = 0x2E then some .point else if b = 0x65 ∨ b = 0x45 then some .exponent else none
  | .integer, b =>
    if isDigit b then some .integer else if b = 0x2E then some .point
    else if b = 0x65 ∨ b = 0x45 then some .exponent else none
  | .point, b => if isDigit b then some .fraction else none
  | .fraction, b =>
    if isDigit b then some .fraction
    else if b = 0x65 ∨ b = 0x45 then some .exponent else none
  | .exponent, b =>
    if b = 0x2B ∨ b = 0x2D then some .exponentSign
    else if isDigit b then some .exponentDigits else none
  | .exponentSign, b | .exponentDigits, b => if isDigit b then some .exponentDigits else none

/-- A literal may end here. -/
def accepts : NumberState → Bool
  | .zero | .integer | .fraction | .exponentDigits => true
  | _ => false

end NumberState

/-- No byte of a number literal has a meaning of its own. -/
theorem NumberState.kind_of_step {state next : NumberState} {b : UInt8}
    (h : state.step b = some next) : kind b = .plain := by
  have hcases : isDigit b = true ∨ b ∈ [0x30, 0x2D, 0x2E, 0x65, 0x45, 0x2B] := by
    cases state <;> simp only [NumberState.step] at h <;> grind
  rcases hcases with hdigit | hmem
  · exact kind_of_isDigit hdigit
  · have hplain : ([0x30, 0x2D, 0x2E, 0x65, 0x45, 0x2B] : Text).all (kind · = .plain) := by decide
    exact of_decide_eq_true (List.all_eq_true.mp hplain b hmem)

def readNumber (literal : Text) : Option NumberState := literal.foldlM NumberState.step .start

def IsNumber (literal : Text) : Prop := (readNumber literal).any NumberState.accepts = true

instance (literal : Text) : Decidable (IsNumber literal) :=
  inferInstanceAs (Decidable (_ = true))

/-! ## Values -/

/-- The literals that are words. -/
inductive Word where
  | null | true | false
  deriving DecidableEq

def Word.text : Word → Text
  | .null => [0x6E, 0x75, 0x6C, 0x6C]
  | .true => [0x74, 0x72, 0x75, 0x65]
  | .false => [0x66, 0x61, 0x6C, 0x73, 0x65]

/-- A number stands for its literal, an object for its members in their order. -/
inductive Value where
  | word (w : Word)
  | number (literal : { l : Text // IsNumber l })
  | string (s : Text)
  | array (items : List Value)
  | object (members : List (Text × Value))

/-! ## Writing -/

def hexDigit (n : ℕ) : UInt8 := UInt8.ofNat (if n < 10 then 0x30 + n else 0x57 + n)

/-- A byte of a string as it is written between quotes. -/
def escapeByte (b : UInt8) : Text :=
  if b = 0x22 then [0x5C, 0x22] else if b = 0x5C then [0x5C, 0x5C]
  else if b = 0x08 then [0x5C, 0x62] else if b = 0x09 then [0x5C, 0x74]
  else if b = 0x0A then [0x5C, 0x6E] else if b = 0x0C then [0x5C, 0x66]
  else if b = 0x0D then [0x5C, 0x72]
  else if b < 0x20 then
    [0x5C, 0x75, 0x30, 0x30, hexDigit (b.toNat / 16), hexDigit (b.toNat % 16)]
  else [b]

def quote (s : Text) : Text := 0x22 :: s.flatMap escapeByte ++ [0x22]

mutual

/-- `JSON.stringify` -/
def stringify : Value → Text
  | .word w => w.text
  | .number literal => literal.val
  | .string s => quote s
  | .array [] => [0x5B, 0x5D]
  | .array (v :: rest) => 0x5B :: (stringify v ++ stringifyItems rest ++ [0x5D])
  | .object [] => [0x7B, 0x7D]
  | .object ((k, v) :: rest) =>
    0x7B :: (quote k ++ 0x3A :: stringify v ++ stringifyMembers rest ++ [0x7D])

/-- The items after the first. -/
def stringifyItems : List Value → Text
  | [] => []
  | v :: rest => 0x2C :: (stringify v ++ stringifyItems rest)

/-- The members after the first. -/
def stringifyMembers : List (Text × Value) → Text
  | [] => []
  | (k, v) :: rest => 0x2C :: (quote k ++ 0x3A :: stringify v ++ stringifyMembers rest)

end

/-! ## Reading -/

/-- An array or object that is open, with what was read of it. -/
inductive Frame where
  | array (items : List Value)
  | object (members : List (Text × Value))
  | member (members : List (Text × Value)) (key : Text)

/-- How far an escape in a string is read. -/
inductive Escape where
  | none
  | backslash
  | unicode (count unit : ℕ)

/-- What may come next. -/
inductive Mode where
  | value
  | firstItem
  | firstKey
  | key
  | colon
  | string (s : Text) (escape : Escape)
  | number (literal : Text)
  | word (w : Word) (read : Text)
  | after (v : Value)

structure State where
  stack : List Frame
  mode : Mode

/-- A string that ends is a key where an object waits for one, and else a value. -/
def closeString (s : Text) : List Frame → State
  | .object members :: stack => ⟨.member members s :: stack, .colon⟩
  | stack => ⟨stack, .after (.string s)⟩

def startValue (stack : List Frame) (b : UInt8) : Option State :=
  match kind b with
  | .blank => some ⟨stack, .value⟩
  | .quote => some ⟨stack, .string [] .none⟩
  | .openBracket => some ⟨.array [] :: stack, .firstItem⟩
  | .openBrace => some ⟨.object [] :: stack, .firstKey⟩
  | .plain =>
    if b = 0x6E then some ⟨stack, .word .null [b]⟩
    else if b = 0x74 then some ⟨stack, .word .true [b]⟩
    else if b = 0x66 then some ⟨stack, .word .false [b]⟩
    else if (readNumber [b]).isSome then some ⟨stack, .number [b]⟩
    else none
  | _ => none

/-- A byte after a whole value. -/
def afterValue (v : Value) (b : UInt8) (stack : List Frame) : Option State :=
  match kind b, stack with
  | .blank, stack => some ⟨stack, .after v⟩
  | .comma, .array items :: stack => some ⟨.array (items ++ [v]) :: stack, .value⟩
  | .comma, .member members key :: stack => some ⟨.object (members ++ [(key, v)]) :: stack, .key⟩
  | .closeBracket, .array items :: stack => some ⟨stack, .after (.array (items ++ [v]))⟩
  | .closeBrace, .member members key :: stack =>
    some ⟨stack, .after (.object (members ++ [(key, v)]))⟩
  | _, _ => none

def hexValue (b : UInt8) : Option ℕ :=
  if isDigit b then some (b.toNat - 0x30)
  else if 0x61 ≤ b ∧ b ≤ 0x66 then some (b.toNat - 0x57)
  else if 0x41 ≤ b ∧ b ≤ 0x46 then some (b.toNat - 0x37) else none

/-- The bytes of a code unit that an escape names. -/
def encodeUnit (n : ℕ) : Text :=
  if n < 0x80 then [UInt8.ofNat n]
  else if n < 0x800 then [UInt8.ofNat (0xC0 + n / 64), UInt8.ofNat (0x80 + n % 64)]
  else [UInt8.ofNat (0xE0 + n / 4096), UInt8.ofNat (0x80 + n / 64 % 64), UInt8.ofNat (0x80 + n % 64)]

/-- The byte that a short escape stands for. -/
def shortEscape (b : UInt8) : Option UInt8 :=
  if b = 0x22 ∨ b = 0x5C ∨ b = 0x2F then some b
  else if b = 0x62 then some 0x08 else if b = 0x66 then some 0x0C
  else if b = 0x6E then some 0x0A else if b = 0x72 then some 0x0D
  else if b = 0x74 then some 0x09 else none

def stringStep (stack : List Frame) (s : Text) (b : UInt8) : Escape → Option State
  | .none =>
    match kind b with
    | .quote => some (closeString s stack)
    | .backslash => some ⟨stack, .string s .backslash⟩
    | _ => if b < 0x20 then none else some ⟨stack, .string (s ++ [b]) .none⟩
  | .backslash =>
    match shortEscape b with
    | some c => some ⟨stack, .string (s ++ [c]) .none⟩
    | none => if b = 0x75 then some ⟨stack, .string s (.unicode 0 0)⟩ else none
  | .unicode count unit =>
    match hexValue b with
    | some d =>
      if count = 3 then some ⟨stack, .string (s ++ encodeUnit (16 * unit + d)) .none⟩
      else some ⟨stack, .string s (.unicode (count + 1) (16 * unit + d))⟩
    | none => none

namespace Mode

/-- The value that a mode has read to its end. -/
def finished : Mode → Option Value
  | .after v => some v
  | .number literal => if h : IsNumber literal then some (.number ⟨literal, h⟩) else none
  | _ => none

end Mode

def step : State → UInt8 → Option State
  | ⟨stack, .value⟩, b => startValue stack b
  | ⟨stack, .firstItem⟩, b =>
    match kind b, stack with
    | .blank, _ => some ⟨stack, .firstItem⟩
    | .closeBracket, .array items :: stack => some ⟨stack, .after (.array items)⟩
    | _, _ => startValue stack b
  | ⟨stack, .firstKey⟩, b =>
    match kind b, stack with
    | .blank, _ => some ⟨stack, .firstKey⟩
    | .quote, _ => some ⟨stack, .string [] .none⟩
    | .closeBrace, .object members :: stack => some ⟨stack, .after (.object members)⟩
    | _, _ => none
  | ⟨stack, .key⟩, b =>
    match kind b with
    | .blank => some ⟨stack, .key⟩
    | .quote => some ⟨stack, .string [] .none⟩
    | _ => none
  | ⟨stack, .colon⟩, b =>
    match kind b with
    | .blank => some ⟨stack, .colon⟩
    | .colon => some ⟨stack, .value⟩
    | _ => none
  | ⟨stack, .string s escape⟩, b => stringStep stack s b escape
  | ⟨stack, .number literal⟩, b =>
    if (readNumber (literal ++ [b])).isSome then some ⟨stack, .number (literal ++ [b])⟩
    else (Mode.number literal).finished.bind fun v => afterValue v b stack
  | ⟨stack, .word w read⟩, b =>
    if read ++ [b] = w.text then some ⟨stack, .after (.word w)⟩
    else if read ++ [b] <+: w.text then some ⟨stack, .word w (read ++ [b])⟩ else none
  | ⟨stack, .after v⟩, b => afterValue v b stack

def run (state : State) (text : Text) : Option State := text.foldlM step state

/-- The value of a text that was read to its end. -/
def State.result (state : State) : Option Value :=
  match state.stack with
  | [] => state.mode.finished
  | _ => none

/-- `JSON.parse`, which throws where this is `none`. -/
def parse (text : Text) : Option Value := (run ⟨[], .value⟩ text).bind State.result

/-! ## What is written is read back -/

variable {stack : List Frame} {state : State} {s t : Text} {b : UInt8} {v : Value}

@[simp] theorem run_nil : run state [] = some state := rfl

@[simp] theorem run_cons : run state (b :: t) = (step state b).bind fun state => run state t := rfl

theorem run_append : run state (s ++ t) = (run state s).bind fun state => run state t := by
  simp only [run, List.foldlM_append, Option.bind_eq_bind]

theorem hexValue_hexDigit : ∀ n < 16, hexValue (hexDigit n) = some n := by decide

/-- A byte of a string is read back from its escape. -/
theorem run_escapeByte (s : Text) (b : UInt8) :
    run ⟨stack, .string s .none⟩ (escapeByte b) = some ⟨stack, .string (s ++ [b]) .none⟩ := by
  unfold escapeByte
  split_ifs with hquote hbackslash h8 h9 hA hC hD hcontrol
  iterate 7
    subst b
    rfl
  · have hlt : b.toNat < 32 := hcontrol
    have hhigh := hexValue_hexDigit (b.toNat / 16) (by omega)
    have hlow := hexValue_hexDigit (b.toNat % 16) (Nat.mod_lt _ (by decide))
    have hzero : hexValue 0x30 = some 0 := rfl
    have hunit : 16 * (b.toNat / 16) + b.toNat % 16 = b.toNat := Nat.div_add_mod ..
    have hencode : encodeUnit b.toNat = [b] := by
      rw [encodeUnit, if_pos (by omega), UInt8.ofNat_toNat]
    have hstart : kind 0x5C = .backslash := rfl
    have hu : shortEscape 0x75 = none := rfl
    simp [run_cons, step, stringStep, hstart, hu, hzero, hhigh, hlow, hunit, hencode]
  · have hb : step ⟨stack, .string s .none⟩ b = some ⟨stack, .string (s ++ [b]) .none⟩ := by
      simp only [step, stringStep]
      cases hk : kind b with
      | quote => exact absurd (kind_eq_quote.mp hk) hquote
      | backslash => exact absurd (kind_eq_backslash.mp hk) hbackslash
      | _ => exact if_neg hcontrol
    rw [run_cons, hb]
    rfl

theorem run_quoted (s t : Text) :
    run ⟨stack, .string s .none⟩ (t.flatMap escapeByte) = some ⟨stack, .string (s ++ t) .none⟩ := by
  induction t generalizing s with
  | nil => simp
  | cons b t ih =>
    rw [List.flatMap_cons, run_append, run_escapeByte, Option.bind_some, ih, List.append_assoc]
    rfl

theorem readNumber_append {l t : Text} (h : (readNumber (l ++ t)).isSome) :
    (readNumber l).isSome := by
  rw [readNumber, List.foldlM_append] at h
  exact Option.isSome_of_isSome_bind h

/-- The last byte of a literal is one of its own. -/
theorem kind_of_readNumber {l : Text} (h : (readNumber (l ++ [b])).isSome) : kind b = .plain := by
  rw [readNumber, List.foldlM_append] at h
  cases hl : l.foldlM NumberState.step .start with
  | none => simp [hl] at h
  | some st =>
    cases hst : st.step b with
    | none => simp [hl, hst] at h
    | some next => exact NumberState.kind_of_step hst

theorem run_number {l : Text} (t : Text) (h : (readNumber (l ++ t)).isSome) :
    run ⟨stack, .number l⟩ t = some ⟨stack, .number (l ++ t)⟩ := by
  induction t generalizing l with
  | nil => rw [List.append_nil, run_nil]
  | cons b t ih =>
    rw [List.append_cons] at h ⊢
    rw [run_cons, step, if_pos (readNumber_append h), Option.bind_some]
    exact ih h

theorem kind_of_isNumber {t : Text} (h : IsNumber (b :: t)) : kind b = .plain := by
  have hsome : (readNumber (b :: t)).isSome := Option.isSome_of_any h
  exact kind_of_readNumber (l := []) (readNumber_append (t := t) hsome)

/-- A number literal starts with a byte that starts nothing else. -/
theorem run_literal {l : Text} (h : IsNumber l) :
    run ⟨stack, .value⟩ l = some ⟨stack, .number l⟩ := by
  have hsome : (readNumber l).isSome := Option.isSome_of_any h
  cases l with
  | nil => cases h
  | cons b t =>
    have hfirst : (readNumber [b]).isSome := readNumber_append (t := t) hsome
    have hplain : kind b = .plain := kind_of_isNumber h
    have hword : ∀ c, (readNumber [c]).isSome = false → b ≠ c := by
      rintro c hc rfl
      rw [hfirst] at hc
      cases hc
    have hstart : startValue stack b = some ⟨stack, .number [b]⟩ := by
      simp only [startValue, hplain, hfirst, if_true, if_neg (hword 0x6E rfl),
        if_neg (hword 0x74 rfl), if_neg (hword 0x66 rfl)]
    rw [run_cons, step, hstart, Option.bind_some]
    exact run_number t hsome

/-- A byte that ends an item or a member follows a value that was read to its end. -/
theorem step_of_finished {m : Mode} (h : m.finished = some v) (hb : kind b ≠ .plain) :
    step ⟨stack, m⟩ b = afterValue v b stack := by
  cases m with
  | after v' =>
    cases h
    rfl
  | number l =>
    have hnone : ¬ (readNumber (l ++ [b])).isSome := fun hsome => hb (kind_of_readNumber hsome)
    rw [step, if_neg hnone, h]
    rfl
  | _ => cases h

/-- No object waits for its next key on top of the stack. -/
def AwaitsValue (stack : List Frame) : Prop := ∀ members rest, stack ≠ .object members :: rest

theorem closeString_of_awaitsValue (h : AwaitsValue stack) (s : Text) :
    closeString s stack = ⟨stack, .after (.string s)⟩ := by
  unfold closeString
  split
  · exact absurd rfl (h _ _)
  · rfl

/-- A string comes to its closing quote. -/
theorem run_quote_tail (s : Text) :
    run ⟨stack, .string [] .none⟩ (s.flatMap escapeByte ++ [0x22]) = some (closeString s stack) := by
  rw [run_append, run_quoted, Option.bind_some, List.nil_append]
  rfl

theorem run_key (s t : Text) {members : List (Text × Value)} {m : Mode}
    (hm : m = .key ∨ m = .firstKey) :
    run ⟨.object members :: stack, m⟩ (quote s ++ 0x3A :: t) =
      run ⟨.member members s :: stack, .value⟩ t := by
  have hstart : step ⟨.object members :: stack, m⟩ 0x22 =
      some ⟨.object members :: stack, .string [] .none⟩ := by
    rcases hm with rfl | rfl <;> rfl
  rw [quote, List.cons_append, List.cons_append, run_cons, hstart, Option.bind_some, run_append,
    run_quote_tail]
  rfl

/-- No value starts with what an empty array would end with, or with a blank. -/
theorem stringify_head (v : Value) :
    ∃ b t, stringify v = b :: t ∧ kind b ≠ .blank ∧ kind b ≠ .closeBracket := by
  cases v with
  | word w => cases w <;> exact ⟨_, _, rfl, by decide, by decide⟩
  | number l =>
    obtain ⟨l, hl⟩ := l
    cases l with
    | nil => cases hl
    | cons b t =>
      have hplain := kind_of_isNumber hl
      exact ⟨b, t, rfl, by simp [hplain], by simp [hplain]⟩
  | string s => exact ⟨_, _, rfl, by decide, by decide⟩
  | array items => cases items <;> exact ⟨_, _, by rw [stringify], by decide, by decide⟩
  | object members => cases members <;> exact ⟨_, _, by rw [stringify], by decide, by decide⟩

theorem run_firstItem (v : Value) (items : List Value) :
    run ⟨.array items :: stack, .firstItem⟩ (stringify v) =
      run ⟨.array items :: stack, .value⟩ (stringify v) := by
  obtain ⟨b, t, hv, hblank, hclose⟩ := stringify_head v
  have hstep : step ⟨.array items :: stack, .firstItem⟩ b =
      step ⟨.array items :: stack, .value⟩ b := by
    simp only [step]
    cases hk : kind b <;> simp_all
  rw [hv, run_cons, run_cons, hstep]

mutual

/-- **What is written for a value is read as that value.** -/
theorem run_stringify : ∀ (v : Value) {stack : List Frame}, AwaitsValue stack →
    ∃ m, run ⟨stack, .value⟩ (stringify v) = some ⟨stack, m⟩ ∧ m.finished = some v
  | .word w, stack, _ => ⟨.after (.word w), by cases w <;> rfl, rfl⟩
  | .number l, stack, _ => ⟨.number l.val, run_literal l.property, dif_pos l.property⟩
  | .string s, stack, hstack => by
    refine ⟨.after (.string s), ?_, rfl⟩
    rw [stringify, quote, List.cons_append, run_cons, ← closeString_of_awaitsValue hstack]
    exact run_quote_tail s
  | .array [], stack, _ => ⟨.after (.array []), rfl, rfl⟩
  | .array (v :: rest), stack, _ => by
    have harray : AwaitsValue (.array [] :: stack) := fun _ _ => by simp
    obtain ⟨m, hrun, hm⟩ := run_stringify v harray
    obtain ⟨init, last, m', hitems, hm', hvalues⟩ := run_stringifyItems rest [] v stack m hm
    refine ⟨.after (.array (v :: rest)), ?_, rfl⟩
    have hclose : step ⟨.array init :: stack, m'⟩ 0x5D =
        some ⟨stack, .after (.array (v :: rest))⟩ := by
      rw [step_of_finished hm' (by decide), ← List.nil_append (v :: rest), ← hvalues]
      rfl
    rw [stringify, run_cons]
    show run ⟨.array [] :: stack, .firstItem⟩ _ = _
    rw [List.append_assoc, run_append, run_firstItem, hrun, Option.bind_some, run_append, hitems,
      Option.bind_some, run_cons, hclose]
    rfl
  | .object [], stack, _ => ⟨.after (.object []), rfl, rfl⟩
  | .object ((k, v) :: rest), stack, _ => by
    have hmember : AwaitsValue (.member [] k :: stack) := fun _ _ => by simp
    obtain ⟨m, hrun, hm⟩ := run_stringify v hmember
    obtain ⟨init, last, m', hmembers, hm', hvalues⟩ := run_stringifyMembers rest [] k v stack m hm
    refine ⟨.after (.object ((k, v) :: rest)), ?_, rfl⟩
    have hclose : step ⟨.member init last.1 :: stack, m'⟩ 0x7D =
        some ⟨stack, .after (.object ((k, v) :: rest))⟩ := by
      rw [step_of_finished hm' (by decide), ← List.nil_append ((k, v) :: rest), ← hvalues]
      rfl
    rw [stringify, run_cons]
    show run ⟨.object [] :: stack, .firstKey⟩ _ = _
    rw [List.append_assoc, List.append_assoc, List.cons_append, run_key k _ (.inr rfl), run_append,
      hrun, Option.bind_some, run_append, hmembers, Option.bind_some, run_cons, hclose]
    rfl

theorem run_stringifyItems : ∀ (rest items : List Value) (v : Value) (stack : List Frame) (m : Mode),
    m.finished = some v → ∃ init last m',
      run ⟨.array items :: stack, m⟩ (stringifyItems rest) = some ⟨.array init :: stack, m'⟩ ∧
        m'.finished = some last ∧ init ++ [last] = items ++ v :: rest
  | [], items, v, stack, m, hm => ⟨items, v, m, rfl, hm, rfl⟩
  | v' :: rest, items, v, stack, m, hm => by
    have harray : AwaitsValue (.array (items ++ [v]) :: stack) := fun _ _ => by simp
    obtain ⟨m', hrun, hm'⟩ := run_stringify v' harray
    obtain ⟨init, last, m'', hitems, hm'', hvalues⟩ :=
      run_stringifyItems rest (items ++ [v]) v' stack m' hm'
    refine ⟨init, last, m'', ?_, hm'', by rw [hvalues, List.append_assoc]; rfl⟩
    rw [stringifyItems, run_cons, step_of_finished hm (by decide)]
    show run ⟨.array (items ++ [v]) :: stack, .value⟩ _ = _
    rw [run_append, hrun, Option.bind_some, hitems]

theorem run_stringifyMembers : ∀ (rest members : List (Text × Value)) (k : Text) (v : Value)
    (stack : List Frame) (m : Mode), m.finished = some v → ∃ init last m',
      run ⟨.member members k :: stack, m⟩ (stringifyMembers rest) =
        some ⟨.member init last.1 :: stack, m'⟩ ∧
          m'.finished = some last.2 ∧ init ++ [last] = members ++ (k, v) :: rest
  | [], members, k, v, stack, m, hm => ⟨members, (k, v), m, rfl, hm, rfl⟩
  | (k', v') :: rest, members, k, v, stack, m, hm => by
    have hmember : AwaitsValue (.member (members ++ [(k, v)]) k' :: stack) := fun _ _ => by simp
    obtain ⟨m', hrun, hm'⟩ := run_stringify v' hmember
    obtain ⟨init, last, m'', hmembers, hm'', hvalues⟩ :=
      run_stringifyMembers rest (members ++ [(k, v)]) k' v' stack m' hm'
    refine ⟨init, last, m'', ?_, hm'', by rw [hvalues, List.append_assoc]; rfl⟩
    rw [stringifyMembers, run_cons, step_of_finished hm (by decide)]
    show run ⟨.object (members ++ [(k, v)]) :: stack, .key⟩ _ = _
    rw [List.append_assoc, List.cons_append, run_key k' _ (.inl rfl), run_append, hrun,
      Option.bind_some, hmembers]

end

theorem parse_stringify (v : Value) : parse (stringify v) = some v := by
  have hempty : AwaitsValue [] := fun _ _ => by simp
  obtain ⟨m, hrun, hm⟩ := run_stringify v hempty
  rw [parse, hrun]
  exact hm

end Json
