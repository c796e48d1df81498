import Ambit.Lib.Json

/-! Brackets and quotes of JSON text. A scan keeps only the number of open brackets and whether it is
between quotes; the parser refines it, so a text that parses is balanced, and a text in which
brackets stay open, or quotes do not pair up, never parses. -/

namespace Json

/-- Where a scan stands with the quotes. -/
inductive Quoting where
  | outside | inside | escaped
  deriving DecidableEq

structure Scan where
  depth : ℕ
  quoting : Quoting

namespace Scan

def step (s : Scan) (b : UInt8) : Option Scan :=
  match s.quoting, kind b with
  | .outside, .quote => some ⟨s.depth, .inside⟩
  | .outside, .backslash => none
  | .outside, .openBrace | .outside, .openBracket => some ⟨s.depth + 1, .outside⟩
  | .outside, .closeBrace | .outside, .closeBracket =>
    if s.depth = 0 then none else some ⟨s.depth - 1, .outside⟩
  | .outside, _ => some s
  | .inside, .quote => some ⟨s.depth, .outside⟩
  | .inside, .backslash => some ⟨s.depth, .escaped⟩
  | .inside, _ => some s
  | .escaped, _ => some ⟨s.depth, .inside⟩

def run (s : Scan) (text : Text) : Option Scan := text.foldlM step s

variable {s s' t t' : Scan} {b : UInt8} {text text' : Text}

@[simp] theorem run_nil : s.run [] = some s := rfl

@[simp] theorem run_cons : s.run (b :: text) = (s.step b).bind fun s => s.run text := rfl

theorem run_append : s.run (text ++ text') = (s.run text).bind fun s => s.run text' := by
  simp only [run, List.foldlM_append, Option.bind_eq_bind]

end Scan

/-! ## The parser refines the scan -/

def Mode.quoting : Mode → Quoting
  | .string _ .backslash => .escaped
  | .string _ _ => .inside
  | _ => .outside

def State.scan (state : State) : Scan := ⟨state.stack.length, state.mode.quoting⟩

variable {stack : List Frame} {state state' : State} {s : Text} {b : UInt8} {v : Value}

theorem scan_startValue (h : startValue stack b = some state') :
    Scan.step ⟨stack.length, .outside⟩ b = some state'.scan := by
  unfold startValue at h
  unfold Scan.step
  cases hk : kind b with
  | plain =>
    simp only [hk] at h ⊢
    split_ifs at h <;> cases h <;> rfl
  | blank | quote | openBracket | openBrace =>
    simp only [hk] at h ⊢
    cases h
    rfl
  | _ =>
    simp only [hk] at h
    cases h

theorem scan_afterValue (h : afterValue v b stack = some state') :
    Scan.step ⟨stack.length, .outside⟩ b = some state'.scan := by
  unfold afterValue at h
  unfold Scan.step
  split at h <;> rename_i hk <;> simp only [hk] <;> cases h <;> rfl

theorem scan_closeString (s : Text) (stack : List Frame) :
    (closeString s stack).scan = ⟨stack.length, .outside⟩ := by
  unfold closeString
  split <;> rfl

theorem kind_of_hexValue {d : ℕ} (h : hexValue b = some d) : kind b = .plain := by
  have hne : ∀ c, hexValue c = none → b ≠ c := by
    rintro c hc rfl
    rw [h] at hc
    cases hc
  simp [kind, hne 0x22 rfl, hne 0x5C rfl, hne 0x7B rfl, hne 0x7D rfl, hne 0x5B rfl, hne 0x5D rfl,
    hne 0x2C rfl, hne 0x3A rfl, hne 0x20 rfl, hne 0x09 rfl, hne 0x0A rfl, hne 0x0D rfl]

theorem scan_stringStep {escape : Escape} (h : stringStep stack s b escape = some state') :
    Scan.step ⟨stack.length, Mode.quoting (.string s escape)⟩ b = some state'.scan := by
  cases escape with
  | none =>
    simp only [stringStep] at h
    simp only [Mode.quoting, Scan.step]
    cases hk : kind b with
    | quote =>
      simp only [hk] at h ⊢
      cases h
      rw [scan_closeString]
    | backslash =>
      simp only [hk] at h ⊢
      cases h
      rfl
    | _ =>
      simp only [hk] at h ⊢
      split_ifs at h
      cases h
      rfl
  | backslash =>
    simp only [stringStep] at h
    simp only [Mode.quoting, Scan.step]
    split at h
    · cases h
      rfl
    · split_ifs at h
      cases h
      rfl
  | unicode count unit =>
    simp only [stringStep] at h
    split at h
    · rename_i d hd
      simp only [Mode.quoting, Scan.step, kind_of_hexValue hd]
      split_ifs at h <;> cases h <;> rfl
    · cases h

theorem kind_of_mem_text {w : Word} (h : b ∈ w.text) : kind b = .plain := by
  have hplain : w.text.all (kind · = .plain) := by cases w <;> decide
  exact of_decide_eq_true (List.all_eq_true.mp hplain b h)

theorem kind_of_mem_number {l : Text} (h : IsNumber l) (hb : b ∈ l) : kind b = .plain := by
  obtain ⟨s, t, rfl⟩ := List.append_of_mem hb
  have hsome : (readNumber (s ++ b :: t)).isSome := Option.isSome_of_any h
  rw [List.append_cons] at hsome
  exact kind_of_readNumber (readNumber_append hsome)

/-- **A byte that the parser takes is taken by the scan.** -/
theorem scan_step (h : step state b = some state') : state.scan.step b = some state'.scan := by
  obtain ⟨stack, mode⟩ := state
  cases mode with
  | value => exact scan_startValue h
  | firstItem =>
    simp only [step] at h
    split at h
    · rename_i hk
      cases h
      simp [State.scan, Scan.step, Mode.quoting, hk]
    · rename_i hk
      cases h
      simp [State.scan, Scan.step, Mode.quoting, hk]
    · exact scan_startValue h
  | firstKey =>
    simp only [step] at h
    split at h <;> rename_i hk <;> cases h <;> simp [State.scan, Scan.step, Mode.quoting, hk]
  | key | colon =>
    simp only [step] at h
    split at h <;> rename_i hk <;> cases h <;> simp [State.scan, Scan.step, Mode.quoting, hk]
  | string s escape => exact scan_stringStep h
  | number literal =>
    simp only [step] at h
    split_ifs at h with hread
    · cases h
      have hplain : kind b = .plain := kind_of_readNumber hread
      simp [State.scan, Scan.step, Mode.quoting, hplain]
    · obtain ⟨v, -, hv⟩ := Option.bind_eq_some_iff.mp h
      exact scan_afterValue hv
  | word w read =>
    simp only [step] at h
    have hmem : b ∈ w.text := by
      split_ifs at h with hall hpart
      · rw [← hall]
        exact List.mem_append_right read (List.mem_singleton_self b)
      · exact hpart.subset (List.mem_append_right read (List.mem_singleton_self b))
    have hplain := kind_of_mem_text hmem
    split_ifs at h <;> cases h <;> simp [State.scan, Scan.step, Mode.quoting, hplain]
  | after v => exact scan_afterValue h

theorem scan_run {text : Text} (h : run state text = some state') :
    state.scan.run text = some state'.scan := by
  induction text generalizing state with
  | nil =>
    cases h
    rfl
  | cons b text ih =>
    obtain ⟨next, hnext, hrest⟩ := Option.bind_eq_some_iff.mp h
    rw [Scan.run_cons, scan_step hnext, Option.bind_some]
    exact ih hrest

/-- A text that parses leaves no bracket open and no quote. -/
theorem scan_of_parse {text : Text} (h : parse text = some v) :
    Scan.run ⟨0, .outside⟩ text = some ⟨0, .outside⟩ := by
  obtain ⟨⟨stack, m⟩, hrun, hresult⟩ := Option.bind_eq_some_iff.mp h
  cases stack with
  | nil =>
    have hend : State.scan ⟨[], m⟩ = ⟨0, .outside⟩ := by
      cases m with
      | string => cases hresult
      | _ => rfl
    have hscan := scan_run hrun
    rw [hend] at hscan
    exact hscan
  | cons => cases hresult

/-! ## Balanced texts -/

/-- A scan comes out of the text as it went in, and never below. -/
structure Balanced (text : Text) : Prop where
  run_eq : ∀ d, Scan.run ⟨d, .outside⟩ text = some ⟨d, .outside⟩
  depth_le : ∀ d n, ∃ s, Scan.run ⟨d, .outside⟩ (text.take n) = some s ∧ d ≤ s.depth

/-- A scan between quotes stays there throughout the text. -/
structure Quoted (text : Text) : Prop where
  run_eq : ∀ d, Scan.run ⟨d, .inside⟩ text = some ⟨d, .inside⟩
  depth_eq : ∀ d n, ∃ q, Scan.run ⟨d, .inside⟩ (text.take n) = some ⟨d, q⟩

variable {text t : Text}

theorem Balanced.nil : Balanced [] :=
  ⟨fun _ => rfl, fun d n => ⟨⟨d, .outside⟩, by rw [List.take_nil, Scan.run_nil], Nat.le_refl d⟩⟩

theorem Balanced.append (h : Balanced text) (ht : Balanced t) : Balanced (text ++ t) where
  run_eq d := by rw [Scan.run_append, h.run_eq, Option.bind_some, ht.run_eq]
  depth_le d n := by
    rw [List.take_append]
    by_cases hn : n ≤ text.length
    · rw [Nat.sub_eq_zero_of_le hn, List.take_zero, List.append_nil]
      exact h.depth_le d n
    · rw [List.take_of_length_le (Nat.le_of_not_le hn), Scan.run_append, h.run_eq, Option.bind_some]
      exact ht.depth_le d _

/-- A byte that the scan passes over. -/
theorem Balanced.cons (hb : ∀ d, Scan.step ⟨d, .outside⟩ b = some ⟨d, .outside⟩)
    (h : Balanced text) : Balanced (b :: text) where
  run_eq d := by rw [Scan.run_cons, hb, Option.bind_some, h.run_eq]
  depth_le d n := by
    cases n with
    | zero => exact ⟨⟨d, .outside⟩, rfl, Nat.le_refl d⟩
    | succ n =>
      rw [List.take_succ_cons, Scan.run_cons, hb, Option.bind_some]
      exact h.depth_le d n

theorem Balanced.of_plain (h : ∀ b ∈ text, kind b = .plain) : Balanced text := by
  induction text with
  | nil => exact .nil
  | cons b text ih =>
    refine .cons (fun d => ?_) (ih fun c hc => h c (List.mem_cons_of_mem b hc))
    simp only [Scan.step, h b (List.mem_cons_self ..)]

/-- Up to its closing bracket, a bracketed text keeps its opening bracket open. -/
theorem Balanced.open_depth {first last : UInt8}
    (hopen : ∀ d, Scan.step ⟨d, .outside⟩ first = some ⟨d + 1, .outside⟩) (h : Balanced text)
    (d : ℕ) {n : ℕ} (hn : n ≤ text.length) :
    ∃ s, Scan.run ⟨d, .outside⟩ ((first :: (text ++ [last])).take (n + 1)) = some s ∧
      d + 1 ≤ s.depth := by
  rw [List.take_succ_cons, Scan.run_cons, hopen, Option.bind_some, List.take_append_of_le_length hn]
  exact h.depth_le (d + 1) n

theorem Balanced.bracketed {first last : UInt8}
    (hopen : ∀ d, Scan.step ⟨d, .outside⟩ first = some ⟨d + 1, .outside⟩)
    (hclose : ∀ d, Scan.step ⟨d + 1, .outside⟩ last = some ⟨d, .outside⟩) (h : Balanced text) :
    Balanced (first :: (text ++ [last])) := by
  have hrun : ∀ d, Scan.run ⟨d, .outside⟩ (first :: (text ++ [last])) = some ⟨d, .outside⟩ := by
    intro d
    rw [Scan.run_cons, hopen, Option.bind_some, Scan.run_append, h.run_eq, Option.bind_some,
      Scan.run_cons, hclose, Option.bind_some, Scan.run_nil]
  refine ⟨hrun, fun d n => ?_⟩
  cases n with
  | zero => exact ⟨⟨d, .outside⟩, rfl, Nat.le_refl d⟩
  | succ n =>
    by_cases hn : n ≤ text.length
    · obtain ⟨s, hs, hle⟩ := @Balanced.open_depth _ _ last hopen h d _ hn
      exact ⟨s, hs, Nat.le_of_succ_le hle⟩
    · rw [List.take_of_length_le (by simp; omega), hrun]
      exact ⟨_, rfl, Nat.le_refl d⟩

theorem Quoted.nil : Quoted [] :=
  ⟨fun _ => rfl, fun d n => ⟨.inside, by rw [List.take_nil, Scan.run_nil]⟩⟩

theorem Quoted.cons (hquote : b ≠ 0x22) (hbackslash : b ≠ 0x5C) (h : Quoted text) :
    Quoted (b :: text) := by
  have hstep : ∀ d, Scan.step ⟨d, .inside⟩ b = some ⟨d, .inside⟩ := by
    intro d
    have hq := mt kind_eq_quote.mp hquote
    have hb := mt kind_eq_backslash.mp hbackslash
    simp only [Scan.step]
  refine ⟨fun d => by rw [Scan.run_cons, hstep, Option.bind_some, h.run_eq], fun d n => ?_⟩
  cases n with
  | zero => exact ⟨.inside, rfl⟩
  | succ n =>
    rw [List.take_succ_cons, Scan.run_cons, hstep, Option.bind_some]
    exact h.depth_eq d n

/-- A backslash takes the next byte with it, whatever it is. -/
theorem Quoted.escape (h : Quoted text) : Quoted (0x5C :: b :: text) := by
  have hstep : ∀ d, Scan.step ⟨d, .inside⟩ 0x5C = some ⟨d, .escaped⟩ := fun _ => rfl
  have hnext : ∀ d, Scan.step ⟨d, .escaped⟩ b = some ⟨d, .inside⟩ := fun _ => rfl
  refine ⟨fun d => ?_, fun d n => ?_⟩
  · rw [Scan.run_cons, hstep, Option.bind_some, Scan.run_cons, hnext, Option.bind_some, h.run_eq]
  · cases n with
    | zero => exact ⟨.inside, rfl⟩
    | succ n =>
      rw [List.take_succ_cons, Scan.run_cons, hstep, Option.bind_some]
      cases n with
      | zero => exact ⟨.escaped, rfl⟩
      | succ n =>
        rw [List.take_succ_cons, Scan.run_cons, hnext, Option.bind_some]
        exact h.depth_eq d n

theorem quoted_escapeByte (b : UInt8) (h : Quoted text) : Quoted (escapeByte b ++ text) := by
  have hhex : ∀ n < 16, hexDigit n ≠ 0x22 ∧ hexDigit n ≠ 0x5C := by decide
  unfold escapeByte
  split_ifs with hquote hbackslash h8 h9 hA hC hD hcontrol
  iterate 7 exact h.escape
  · have hlt : b.toNat < 32 := hcontrol
    obtain ⟨hq, hb⟩ := hhex (b.toNat / 16) (by omega)
    obtain ⟨hq', hb'⟩ := hhex (b.toNat % 16) (Nat.mod_lt _ (by decide))
    exact .escape (.cons (by decide) (by decide) (.cons (by decide) (by decide)
      (.cons hq hb (.cons hq' hb' h))))
  · exact h.cons hquote hbackslash

theorem balanced_quote (s : Text) : Balanced (quote s) := by
  have hquoted : Quoted (s.flatMap escapeByte) := by
    induction s with
    | nil => exact .nil
    | cons b s ih =>
      rw [List.flatMap_cons]
      exact quoted_escapeByte b ih
  have hrun : ∀ d, Scan.run ⟨d, .outside⟩ (quote s) = some ⟨d, .outside⟩ := by
    intro d
    have hopen : Scan.step ⟨d, .outside⟩ 0x22 = some ⟨d, .inside⟩ := rfl
    rw [quote, List.cons_append, Scan.run_cons, hopen, Option.bind_some, Scan.run_append,
      hquoted.run_eq]
    rfl
  refine ⟨hrun, fun d n => ?_⟩
  cases n with
  | zero => exact ⟨⟨d, .outside⟩, rfl, Nat.le_refl d⟩
  | succ n =>
    by_cases hn : n ≤ (s.flatMap escapeByte).length
    · have hopen : Scan.step ⟨d, .outside⟩ 0x22 = some ⟨d, .inside⟩ := rfl
      rw [quote, List.cons_append, List.take_succ_cons, Scan.run_cons, hopen, Option.bind_some,
        List.take_append_of_le_length hn]
      obtain ⟨q, hq⟩ := hquoted.depth_eq d n
      exact ⟨_, hq, Nat.le_refl d⟩
    · have hle : (quote s).length ≤ n + 1 := by
        simp only [quote, List.length_append, List.length_cons, List.length_nil]
        omega
      rw [List.take_of_length_le hle, hrun]
      exact ⟨_, rfl, Nat.le_refl d⟩

mutual

/-- What is written for a value is balanced. -/
theorem balanced_stringify : ∀ v : Value, Balanced (stringify v)
  | .word w => .of_plain fun _ hb => kind_of_mem_text hb
  | .number l => .of_plain fun _ hb => kind_of_mem_number l.property hb
  | .string s => balanced_quote s
  | .array [] => Balanced.nil.bracketed (fun _ => rfl) fun _ => rfl
  | .array (v :: rest) => by
    rw [stringify]
    exact ((balanced_stringify v).append (balanced_stringifyItems rest)).bracketed
      (fun _ => rfl) fun _ => rfl
  | .object members => by
    obtain ⟨text, htext, hbalanced⟩ := stringify_object members
    rw [htext]
    exact hbalanced.bracketed (fun _ => rfl) fun _ => rfl

theorem balanced_stringifyItems : ∀ rest : List Value, Balanced (stringifyItems rest)
  | [] => .nil
  | v :: rest => by
    rw [stringifyItems]
    exact ((balanced_stringify v).append (balanced_stringifyItems rest)).cons fun _ => rfl

/-- An object is written between braces. -/
theorem stringify_object : ∀ members : List (Text × Value), ∃ text,
    stringify (.object members) = 0x7B :: (text ++ [0x7D]) ∧ Balanced text
  | [] => ⟨[], rfl, .nil⟩
  | (k, v) :: rest => by
    refine ⟨quote k ++ 0x3A :: stringify v ++ stringifyMembers rest, by rw [stringify], ?_⟩
    exact ((balanced_quote k).append ((balanced_stringify v).cons fun _ => rfl)).append
      (balanced_stringifyMembers rest)

theorem balanced_stringifyMembers : ∀ rest : List (Text × Value), Balanced (stringifyMembers rest)
  | [] => .nil
  | (k, v) :: rest => by
    rw [stringifyMembers]
    exact (((balanced_quote k).append ((balanced_stringify v).cons fun _ => rfl)).append
      (balanced_stringifyMembers rest)).cons fun _ => rfl

end

/-! ## Texts that do not parse -/

/-- One scan is between quotes exactly where the other is not. -/
def Flipped (s t : Scan) : Prop :=
  (s.quoting = .outside ∧ t.quoting = .inside) ∨ (s.quoting = .inside ∧ t.quoting = .outside)

theorem Flipped.step {s s' t t' : Scan} (h : Flipped s t) (hs : s.step b = some s')
    (ht : t.step b = some t') : Flipped s' t' := by
  obtain ⟨depth, quoting⟩ := s
  obtain ⟨depth', quoting'⟩ := t
  rcases h with ⟨rfl, rfl⟩ | ⟨rfl, rfl⟩
  all_goals
    simp only [Scan.step] at hs ht
    cases hk : kind b <;> simp only [hk] at hs ht <;> (try split_ifs at hs ht) <;> cases hs <;>
      cases ht <;> simp [Flipped]

theorem Flipped.run {s s' t t' : Scan} (h : Flipped s t) (hs : s.run text = some s')
    (ht : t.run text = some t') : Flipped s' t' := by
  induction text generalizing s t with
  | nil =>
    cases hs
    cases ht
    exact h
  | cons b text ih =>
    obtain ⟨u, hu, hs⟩ := Option.bind_eq_some_iff.mp hs
    obtain ⟨u', hu', ht⟩ := Option.bind_eq_some_iff.mp ht
    exact ih (h.step hu hu') hs ht

/-- A balanced text that starts between quotes does not end outside them. -/
theorem Balanced.inside (h : Balanced text) {d : ℕ} {s : Scan}
    (hs : Scan.run ⟨d, .inside⟩ text = some s) : s.quoting = .inside := by
  have hflipped : Flipped ⟨0, .outside⟩ ⟨d, .inside⟩ := .inl ⟨rfl, rfl⟩
  rcases hflipped.run (h.run_eq 0) hs with ⟨-, hs⟩ | ⟨h, -⟩
  · exact hs
  · cases h

variable {members members' : List (Text × Value)} {n : ℕ}

/-- An object of which the end is missing leaves its brace open. -/
theorem scan_torn (hpos : 0 < n) (hn : n < (stringify (.object members)).length) :
    ∃ s, Scan.run ⟨0, .outside⟩ ((stringify (.object members)).take n) = some s ∧
      0 < s.depth := by
  obtain ⟨text, htext, hbalanced⟩ := stringify_object members
  rw [htext] at hn ⊢
  obtain ⟨n, rfl⟩ := Nat.exists_eq_add_of_le' hpos
  refine hbalanced.open_depth (fun _ => rfl) 0 ?_
  simp only [List.length_cons, List.length_append, List.length_nil] at hn
  omega

theorem parse_torn (hn : n < (stringify (.object members)).length) :
    parse ((stringify (.object members)).take n) = none := by
  cases n with
  | zero => rfl
  | succ n =>
    by_contra hparse
    obtain ⟨v, hv⟩ := Option.ne_none_iff_exists'.mp hparse
    obtain ⟨s, hs, hdepth⟩ := scan_torn (Nat.succ_pos n) hn
    rw [scan_of_parse hv] at hs
    cases hs
    exact Nat.lt_irrefl 0 hdepth

/-- What is written after the torn beginning of an object does not parse with it. -/
theorem parse_torn_append (hpos : 0 < n) (hn : n < (stringify (.object members)).length) :
    parse ((stringify (.object members)).take n ++ stringify (.object members')) = none := by
  by_contra hparse
  obtain ⟨v, hv⟩ := Option.ne_none_iff_exists'.mp hparse
  obtain ⟨⟨depth, quoting⟩, hs, hdepth⟩ := scan_torn hpos hn
  have hend := scan_of_parse hv
  rw [Scan.run_append, hs, Option.bind_some] at hend
  have hbalanced := balanced_stringify (.object members')
  cases quoting with
  | outside =>
    -- the brace stays open to the end
    rw [hbalanced.run_eq depth] at hend
    cases hend
    exact Nat.lt_irrefl 0 hdepth
  | inside => cases hbalanced.inside hend
  | escaped =>
    -- the escape takes the opening brace, and the rest is read between quotes
    obtain ⟨text, htext, -⟩ := stringify_object members'
    have hescaped : Scan.run ⟨depth, .escaped⟩ (stringify (.object members')) =
        Scan.run ⟨depth, .inside⟩ (stringify (.object members')) := by
      rw [htext]
      rfl
    rw [hescaped] at hend
    cases hbalanced.inside hend

/-- Nor does what is written after a whole value without a break. -/
theorem parse_stringify_append (v : Value) :
    parse (stringify v ++ stringify (.object members)) = none := by
  have hempty : AwaitsValue [] := fun _ _ => by simp
  obtain ⟨m, hrun, hm⟩ := run_stringify v hempty
  obtain ⟨text, htext, -⟩ := stringify_object members
  have hbrace : step ⟨[], m⟩ 0x7B = none := step_of_finished hm (by decide)
  rw [parse, run_append, hrun, Option.bind_some, htext, run_cons, hbrace]
  rfl

/-! ## Line breaks -/

theorem ne_newline_of_plain (h : kind b = .plain) : b ≠ 0x0A := by
  rintro rfl
  cases h

theorem newline_not_mem_quote (s : Text) : (0x0A : UInt8) ∉ quote s := by
  have hhex : ∀ n < 16, hexDigit n ≠ 0x0A := by decide
  have hescape : ∀ b, (0x0A : UInt8) ∉ escapeByte b := by
    intro b
    unfold escapeByte
    split_ifs with hquote hbackslash h8 h9 hA hC hD hcontrol
    iterate 7 decide
    · have hlt : b.toNat < 32 := hcontrol
      have hhigh := hhex (b.toNat / 16) (by omega)
      have hlow := hhex (b.toNat % 16) (Nat.mod_lt _ (by decide))
      simp [hhigh.symm, hlow.symm]
    · exact fun hmem => hA (List.mem_singleton.mp hmem).symm
  intro hmem
  rw [quote, List.cons_append, List.mem_cons, List.mem_append, List.mem_singleton] at hmem
  rcases hmem with hmem | hmem | hmem
  · cases hmem
  · obtain ⟨b, -, hb⟩ := List.mem_flatMap.mp hmem
    exact hescape b hb
  · cases hmem

mutual

/-- Every value is written on one line. -/
theorem newline_not_mem_stringify : ∀ v : Value, (0x0A : UInt8) ∉ stringify v
  | .word w => fun h => ne_newline_of_plain (kind_of_mem_text h) rfl
  | .number l => fun h => ne_newline_of_plain (kind_of_mem_number l.property h) rfl
  | .string s => newline_not_mem_quote s
  | .array [] => by decide
  | .array (v :: rest) => by
    have hv := newline_not_mem_stringify v
    have hrest := newline_not_mem_stringifyItems rest
    simp [stringify, hv, hrest]
  | .object [] => by decide
  | .object ((k, v) :: rest) => by
    have hk := newline_not_mem_quote k
    have hv := newline_not_mem_stringify v
    have hrest := newline_not_mem_stringifyMembers rest
    simp [stringify, hk, hv, hrest]

theorem newline_not_mem_stringifyItems : ∀ rest : List Value,
    (0x0A : UInt8) ∉ stringifyItems rest
  | [] => by decide
  | v :: rest => by
    have hv := newline_not_mem_stringify v
    have hrest := newline_not_mem_stringifyItems rest
    simp [stringifyItems, hv, hrest]

theorem newline_not_mem_stringifyMembers : ∀ rest : List (Text × Value),
    (0x0A : UInt8) ∉ stringifyMembers rest
  | [] => by decide
  | (k, v) :: rest => by
    have hk := newline_not_mem_quote k
    have hv := newline_not_mem_stringify v
    have hrest := newline_not_mem_stringifyMembers rest
    simp [stringifyMembers, hk, hv, hrest]

end

end Json
