import Mathlib.Data.List.Nodup
import StaticImage.Code.Disassembly
import StaticImage.Proofs.Code.Fields
import StaticImage.Proofs.Text.Numerals

namespace StaticImage

inductive WordField where
  | a
  | b
  | c
  | bx
  | sbx
  deriving DecidableEq, Repr

def WordField.read (i : Instruction) : WordField → Int
  | a => i.ra
  | b => i.rkb
  | c => i.rkc
  | bx => i.bx
  | sbx => i.sbx

/-- A column of the text: the field that stands there and the form it is written in. -/
inductive Column where
  | blank
  | registerA
  | numberA
  | numberB
  | numberC
  | numberBx
  | registerOrConstB
  | registerOrConstC
  | upvalue
  | global
  | const
  | proto
  | signed
  | target
  deriving DecidableEq, Repr

namespace Column

def field? : Column → Option WordField
  | blank => none
  | registerA | numberA => some .a
  | numberB | registerOrConstB | upvalue => some .b
  | numberC | registerOrConstC => some .c
  | numberBx | global | const | proto => some .bx
  | signed | target => some .sbx

def operand (i : Instruction) (pc : Nat) : Column → Operand
  | blank => .blank
  | registerA => .register i.ra
  | numberA => .number i.ra
  | numberB => .number i.rkb
  | numberC => .number i.rkc
  | numberBx => .number i.bx
  | registerOrConstB => .registerOrConst i.rkb
  | registerOrConstC => .registerOrConst i.rkc
  | upvalue => .upvalue i.rkb
  | global => .global i.bx
  | const => .const i.bx
  | proto => .proto i.bx
  | signed => .signed i.sbx
  | target => .target (pc + i.sbx + 1)

end Column

namespace Opcode

def columns (a : Nat) : Opcode → List Column
  | add | sub | mul | div | mod | lt | le | eq | ne | gt | ge | connect
  | getMember | setMember | getMethod | getIndex | setIndex | and | or | xor
  | shl | shr => [.registerA, .registerOrConstB, .registerOrConstC]
  | getNamed | setNamed | move | setSuper | neg | flip | importModule =>
    [.registerA, .registerOrConstB]
  | getGlobal | setGlobal => [.registerA, .global]
  | jump => [.blank, .target]
  | jumpTrue | jumpFalse => [.registerA, .target]
  | loadInt => [.registerA, .signed]
  | loadBool | catchError => [.registerA, .numberB, .numberC]
  | ret => if a = 0 then [.numberA] else [.numberA, .registerOrConstB]
  | getUpvalue | setUpvalue => [.registerA, .upvalue]
  | loadConst => [.registerA, .const]
  | call => [.registerA, .numberB]
  | closure => [.registerA, .proto]
  | makeClass => [.const]
  | close | loadNil => [.registerA]
  | raise => [.numberA, .registerOrConstB, .registerOrConstC]
  | exceptBlock => if a = 0 then [.numberA, .target] else [.numberA, .numberBx]

def shown (op : Opcode) (a : Nat) : List WordField :=
  (op.columns a).filterMap Column.field?

/-- Operations whose text shows the whole word. -/
def whollyShown : List Opcode :=
  [add, sub, mul, div, mod, lt, le, eq, ne, gt, ge, and, or, xor, shl, shr, connect, getMember,
    getMethod, setMember, getIndex, setIndex, raise, loadBool, catchError, loadInt, loadConst,
    getGlobal, setGlobal, closure, jumpTrue, jumpFalse]

theorem name_injective (op op' : Opcode) (same : op.name = op'.name) : op = op' := by
  have distinct : (all.map name).Nodup := by decide
  exact List.inj_on_of_nodup_map distinct op.mem_all op'.mem_all same

theorem name_plain (op : Opcode) : '\t' ∉ op.name.toList := by
  have plain : ∀ op ∈ all, '\t' ∉ op.name.toList := by decide
  exact plain op op.mem_all

/-- The columns hang on A in two operations only, whose first column is A. -/
theorem columns_cases (op : Opcode) (a a' : Nat) :
    op.columns a = op.columns a' ∨ .numberA ∈ (op.columns a).head? ∧
      .numberA ∈ (op.columns a').head? := by
  cases op
  case ret | exceptBlock =>
    right
    simp only [columns]
    constructor
    · split <;> rfl
    · split <;> rfl
  all_goals exact Or.inl rfl

end Opcode

theorem addressText_toList (address : Int) : (addressText address).toList = Hex.padded Hex.upper 4
    (if address < 0 then address + UInt64.size else address).toNat := by
  rw [addressText, String.toList_ofList]

/-- Addresses close to one program counter are told apart, also those before zero. -/
theorem addressText_injective {pc : Nat} {x y : Int} (near : (x - pc).natAbs ≤ 262144)
    (near' : (y - pc).natAbs ≤ 262144) (same : addressText x = addressText y) : x = y := by
  have digits := congrArg String.toList same
  rw [addressText_toList, addressText_toList] at digits
  have numbers := Hex.padded_injective Hex.upper Hex.upper_injective 4 _ _ digits
  rw [UInt64.size] at numbers
  split at numbers
  · split at numbers <;> omega
  · split at numbers <;> omega

namespace Instruction

variable {i j : Instruction} {op op' : Opcode} {pc : Nat}

theorem operands_eq (i : Instruction) (pc : Nat) (op : Opcode) :
    i.operands pc op = (op.columns i.ra).map (Column.operand i pc) := by
  cases op
  case ret | exceptBlock =>
    simp only [operands, Opcode.columns]
    split <;> rfl
  all_goals rfl

theorem rkb_lt (i : Instruction) : i.rkb < 512 :=
  Nat.mod_lt _ (by decide)

theorem rkc_lt (i : Instruction) : i.rkc < 512 :=
  Nat.mod_lt _ (by decide)

theorem target_near (i : Instruction) (pc : Nat) :
    ((pc + i.sbx + 1 : Int) - pc).natAbs ≤ 262144 := by
  have bound := i.bx_lt
  rw [sbx, bias]
  omega

end Instruction

namespace Operand

theorem registerOrConst_text (rk : Nat) : (registerOrConst rk).text =
    (if rk / 256 % 2 = 1 then "K" else "R") ++ toString (rk % 256) := by
  rw [text]
  split <;> rfl

theorem registerOrConst_injective {x y : Nat} (small : x < 512) (small' : y < 512)
    (same : (registerOrConst x).text = (registerOrConst y).text) : x = y := by
  have letter (n : Nat) : (registerOrConst n).text.toList =
      (if n / 256 % 2 = 1 then 'K' else 'R') :: (toString (n % 256)).toList := by
    rw [registerOrConst_text, String.toList_append]
    split <;> rfl
  have equal := congrArg String.toList same
  rw [letter, letter] at equal
  obtain ⟨flags, digits⟩ := List.cons.inj equal
  have low := Decimal.nat_injective _ _ digits
  split at flags
  · split at flags
    · omega
    · cases flags
  · split at flags
    · cases flags
    · omega

theorem text_plain (o : Operand) : '\t' ∉ o.text.toList := by
  have number (n : Nat) : '\t' ∉ (toString n).toList := by
    intro member
    cases Decimal.isDigit_of_mem n _ member
  have marked (mark : String) (n : Nat) (plain : '\t' ∉ mark.toList) :
      '\t' ∉ (mark ++ toString n).toList := by
    rw [String.toList_append, List.mem_append]
    exact not_or.mpr ⟨plain, number n⟩
  cases o with
  | blank => exact List.not_mem_nil
  | number n => exact number n
  | register n | global n | upvalue n | const n | proto n => exact marked _ n (by decide)
  | signed n =>
      intro member
      cases Decimal.isSigned_of_mem n _ member
  | registerOrConst rk =>
      rw [registerOrConst_text]
      exact marked _ _ (by split <;> decide)
  | target address =>
      intro member
      rw [text, String.toList_append, List.mem_append, addressText_toList] at member
      rcases member with mark | digit
      · cases List.mem_singleton.mp mark
      · cases Hex.isDigit_of_mem_fixed Hex.upper (by decide) _ _ _ digit

end Operand

namespace Column

variable {column : Column} {i j : Instruction} {pc : Nat}

theorem read_eq_of_text (same : (column.operand i pc).text = (column.operand j pc).text) :
    ∀ f ∈ column.field?, f.read i = f.read j := by
  intro f member
  have digits {n m : Nat} (numbers : toString n = toString m) : (n : Int) = m :=
    congrArg Nat.cast (Decimal.nat_injective n m (congrArg String.toList numbers))
  have marked {mark : String} {n m : Nat} (texts : mark ++ toString n = mark ++ toString m) :
      (n : Int) = m :=
    digits ((String.append_right_inj mark).mp texts)
  cases column with
  | blank => cases member
  | registerA | upvalue | global | const | proto =>
      cases member
      exact marked same
  | numberA | numberB | numberC | numberBx =>
      cases member
      exact digits same
  | registerOrConstB =>
      cases member
      exact congrArg Nat.cast (Operand.registerOrConst_injective i.rkb_lt j.rkb_lt same)
  | registerOrConstC =>
      cases member
      exact congrArg Nat.cast (Operand.registerOrConst_injective i.rkc_lt j.rkc_lt same)
  | signed =>
      cases member
      exact Decimal.int_injective i.sbx j.sbx (congrArg String.toList same)
  | target =>
      cases member
      have addresses := addressText_injective (i.target_near pc) (j.target_near pc)
        ((String.append_right_inj "#").mp same)
      change i.sbx = j.sbx
      omega

theorem operand_eq (agree : ∀ f ∈ column.field?, f.read i = f.read j) :
    column.operand i pc = column.operand j pc := by
  have field {f : WordField} {n m : Nat} (behind : column.field? = some f) (left : f.read i = n)
      (right : f.read j = m) : n = m := by
    have same := agree f behind
    omega
  cases column with
  | blank => rfl
  | registerA => exact congrArg Operand.register (field rfl rfl rfl)
  | numberA | numberB | numberC | numberBx => exact congrArg Operand.number (field rfl rfl rfl)
  | registerOrConstB | registerOrConstC =>
      exact congrArg Operand.registerOrConst (field rfl rfl rfl)
  | upvalue => exact congrArg Operand.upvalue (field rfl rfl rfl)
  | global => exact congrArg Operand.global (field rfl rfl rfl)
  | const => exact congrArg Operand.const (field rfl rfl rfl)
  | proto => exact congrArg Operand.proto (field rfl rfl rfl)
  | signed => exact congrArg Operand.signed (agree .sbx rfl)
  | target => exact congrArg (fun n : Int => Operand.target (pc + n + 1)) (agree .sbx rfl)

theorem text_eq_iff : (column.operand i pc).text = (column.operand j pc).text ↔
    ∀ f ∈ column.field?, f.read i = f.read j :=
  ⟨read_eq_of_text, fun agree => congrArg Operand.text (operand_eq agree)⟩

end Column

namespace Instruction

variable {i j : Instruction} {op op' : Opcode} {pc : Nat}

def cells (i : Instruction) (pc : Nat) (op : Opcode) : List (List Char) :=
  op.name.toList :: (op.columns i.ra).map fun column => (column.operand i pc).text.toList

theorem cells_plain (i : Instruction) (pc : Nat) (op : Opcode) :
    ∀ cell ∈ i.cells pc op, '\t' ∉ cell := by
  intro cell member
  rcases List.mem_cons.mp member with rfl | behind
  · exact op.name_plain
  · obtain ⟨column, _, rfl⟩ := List.mem_map.mp behind
    exact Operand.text_plain _

theorem text_toList (known : i.op? = some op) : (i.text pc).toList =
    ("  " ++ addressText pc ++ "  ").toList ++ ['\t'].intercalate (i.cells pc op) := by
  have tabbed (head : List Char) (columns : List Column) :
      ['\t'].intercalate (head :: columns.map fun column => (column.operand i pc).text.toList) =
        head ++ columns.flatMap fun column => '\t' :: (column.operand i pc).text.toList := by
    induction columns generalizing head with
    | nil => simp
    | cons column columns ih =>
        rw [List.map_cons, List.intercalate_cons_cons, ih, List.flatMap_cons]
        simp
  simp only [text, known, operands_eq, cells, tabbed, String.toList_append, String.toList_join,
    List.flatMap_map, List.append_assoc]
  rfl

theorem text_eq_iff_cells (known : i.op? = some op) (known' : j.op? = some op') :
    i.text pc = j.text pc ↔ i.cells pc op = j.cells pc op' := by
  rw [← String.toList_inj, text_toList known, text_toList known', List.append_cancel_left_eq]
  refine ⟨fun equal => ?_, congrArg _⟩
  have split (k : Instruction) (o : Opcode) :=
    List.splitOn_intercalate '\t' (k.cells_plain pc o) (List.cons_ne_nil _ _)
  rw [← split i op, ← split j op', equal]

theorem columns_eq_of_cells (same : i.cells pc op = j.cells pc op) :
    op.columns i.ra = op.columns j.ra := by
  rcases op.columns_cases i.ra j.ra with columns | ⟨here, there⟩
  · exact columns
  · have heads := congrArg (fun cells => cells.tail.head?) same
    simp only [cells, List.tail_cons, List.head?_map, Option.mem_def.mp here,
      Option.mem_def.mp there, Option.map_some, Option.some.injEq, String.toList_inj] at heads
    have a : (i.ra : Int) = j.ra := Column.read_eq_of_text heads .a rfl
    rw [Int.ofNat.inj a]

theorem columns_eq_of_shown (agree : ∀ f ∈ op.shown i.ra, f.read i = f.read j) :
    op.columns i.ra = op.columns j.ra := by
  rcases op.columns_cases i.ra j.ra with columns | ⟨here, _⟩
  · exact columns
  · have a : (i.ra : Int) = j.ra :=
      agree .a (List.mem_filterMap.mpr ⟨.numberA, List.mem_of_mem_head? here, rfl⟩)
    rw [Int.ofNat.inj a]

theorem cells_eq_iff :
    i.cells pc op = j.cells pc op ↔ ∀ f ∈ op.shown i.ra, f.read i = f.read j := by
  have each (columns : op.columns i.ra = op.columns j.ra) : i.cells pc op = j.cells pc op ↔
      ∀ column ∈ op.columns i.ra, ∀ f ∈ column.field?, f.read i = f.read j := by
    simp only [cells, ← columns, List.cons.injEq, true_and, List.map_inj_left, String.toList_inj,
      Column.text_eq_iff]
  have fields : (∀ column ∈ op.columns i.ra, ∀ f ∈ column.field?, f.read i = f.read j) ↔
      ∀ f ∈ op.shown i.ra, f.read i = f.read j := by
    simp only [Opcode.shown, List.mem_filterMap, Option.mem_def]
    exact ⟨fun all f ⟨column, member, behind⟩ => all column member f behind,
      fun all column member f behind => all f ⟨column, member, behind⟩⟩
  constructor
  · intro same
    exact fields.mp ((each (columns_eq_of_cells same)).mp same)
  · intro agree
    exact (each (columns_eq_of_shown agree)).mpr (fields.mpr agree)

theorem op_eq_of_cells (same : i.cells pc op = j.cells pc op') : op = op' :=
  Opcode.name_injective op op' (String.toList_inj.mp (List.cons.inj same).1)

end Instruction

theorem Opcode.shown_wholly {op : Opcode} (member : op ∈ whollyShown) (a : Nat) :
    op.shown a = [.a, .b, .c] ∨ op.shown a = [.a, .bx] ∨ op.shown a = [.a, .sbx] := by
  have table : ∀ op ∈ whollyShown,
      op.shown 0 = [.a, .b, .c] ∨ op.shown 0 = [.a, .bx] ∨ op.shown 0 = [.a, .sbx] := by decide
  have same : op.columns a = op.columns 0 := by
    cases op
    case ret | exceptBlock => exact absurd member (by decide)
    all_goals rfl
  rw [shown, same]
  exact table op member

namespace Instruction

variable {i j : Instruction} {op op' : Opcode} {pc : Nat}

theorem eq_of_shown (known : i.op? = some op) (known' : j.op? = some op)
    (whole : op ∈ Opcode.whollyShown) (agree : ∀ f ∈ op.shown i.ra, f.read i = f.read j) :
    i = j := by
  have a (shows : .a ∈ op.shown i.ra) : i.ra = j.ra := Int.ofNat.inj (agree .a shows)
  rcases Opcode.shown_wholly whole i.ra with three | wide | signed
  · have b : i.rkb = j.rkb := Int.ofNat.inj (agree .b (by simp [three]))
    have c : i.rkc = j.rkc := Int.ofNat.inj (agree .c (by simp [three]))
    exact eq_of_fields known known' (a (by simp [three])) (by rw [bx_eq, bx_eq, b, c])
  · have bx : i.bx = j.bx := Int.ofNat.inj (agree .bx (by simp [wide]))
    exact eq_of_fields known known' (a (by simp [wide])) bx
  · have sbx : i.sbx = j.sbx := agree .sbx (by simp [signed])
    refine eq_of_fields known known' (a (by simp [signed])) ?_
    rw [Instruction.sbx, Instruction.sbx] at sbx
    omega

/-- Two words of known operations have the same text at a program counter exactly if they have the
same operation and agree in every field that its text shows, which for the operations that are
wholly shown is to say that they are the same word. -/
theorem disassembly_tells_instructions (i j : Instruction) (pc : Nat) (op op' : Opcode)
    (known : i.op? = some op) (known' : j.op? = some op') :
    (i.text pc = j.text pc ↔ op = op' ∧ ∀ f ∈ op.shown i.ra, f.read i = f.read j) ∧
      (op ∈ Opcode.whollyShown → i.text pc = j.text pc → i = j) := by
  have told : i.text pc = j.text pc ↔ op = op' ∧ ∀ f ∈ op.shown i.ra, f.read i = f.read j := by
    rw [text_eq_iff_cells known known']
    constructor
    · intro same
      obtain rfl := op_eq_of_cells same
      exact ⟨rfl, cells_eq_iff.mp same⟩
    · rintro ⟨rfl, agree⟩
      exact cells_eq_iff.mpr agree
  refine ⟨told, fun whole same => ?_⟩
  obtain ⟨rfl, agree⟩ := told.mp same
  exact eq_of_shown known known' whole agree

/-- Two jumps to one place before the first instruction. The text of a jump does not show A. -/
theorem backward_jumps_look_alike :
    (asbx .jump 0 (-5)).op? = some .jump ∧ (asbx .jump 7 (-5)).op? = some .jump ∧
      asbx .jump 0 (-5) ≠ asbx .jump 7 (-5) ∧
      (asbx .jump 0 (-5)).text 1 = (asbx .jump 7 (-5)).text 1 ∧
      (asbx .jump 0 (-5)).text 1 = "  0001  JMP\t\t#FFFFFFFFFFFFFFFD" := by
  have known : (asbx .jump 0 (-5)).op? = some .jump := by decide
  have known' : (asbx .jump 7 (-5)).op? = some .jump := by decide
  have agree : ∀ f ∈ Opcode.jump.shown (asbx .jump 0 (-5)).ra,
      f.read (asbx .jump 0 (-5)) = f.read (asbx .jump 7 (-5)) := by decide
  obtain ⟨told, _⟩ := disassembly_tells_instructions _ _ 1 .jump .jump known known'
  exact ⟨known, known', by decide, told.mpr ⟨rfl, agree⟩, by decide +kernel⟩

end Instruction

end StaticImage
