import Mathlib.Data.List.Forall2
import StaticImage.Image.Declaration
import StaticImage.Proofs.Image.Reading

namespace StaticImage

def PlainName (name : String) : Prop :=
  ∀ c ∈ name.toList, Identifier.isPlainChar c = true

instance (name : String) : Decidable (PlainName name) :=
  decidable_of_iff (name.toList.all Identifier.isPlainChar = true) List.all_eq_true

@[simp]
theorem Step.spelling_classSymbol (weak : Bool) (name : String) :
    (Step.write (.classSymbol name)).spelling weak = ("be_class_" ++ name).toList := rfl

@[simp]
theorem Step.spelling_functionName (weak : Bool) (content : String) :
    (Step.write (.functionName content)).spelling weak = (Piece.nameText weak content).toList := rfl

def codeComment (i : Instruction) (pc : Nat) : String :=
  ",  //" ++ i.text pc ++ "\n"

theorem Step.spelling_codeWord (weak : Bool) (i : Instruction) (pc : Nat) :
    (Step.write (.codeWord i pc)).spelling weak =
      "0x".toList ++ (Hex.fixed Hex.upper 8 i.word.toNat ++ (codeComment i pc).toList) := by
  have text : (Piece.codeWord i pc).render weak =
      "0x" ++ (String.ofList (Hex.fixed Hex.upper 8 i.word.toNat) ++ codeComment i pc) := by
    rw [codeComment, ← String.append_assoc, ← String.append_assoc, ← String.append_assoc]
    rfl
  have spelled : (String.ofList (Hex.fixed Hex.upper 8 i.word.toNat)).toList =
      Hex.fixed Hex.upper 8 i.word.toNat := String.toList_ofList
  rw [Step.spelling, text, String.toList_append, String.toList_append, spelled]

theorem PlainName.tells {name other : String} (plain : PlainName name) (plain' : PlainName other)
    (closing : List Char) {stop : Char} (ends : closing.head? = some stop)
    (outside : Identifier.isPlainChar stop = false) :
    Tells (name.toList ++ closing) (other.toList ++ closing) (name = other) :=
  (Tells.field Identifier.isPlainChar ends outside plain plain').mono String.toList_inj.mp

namespace FunctionImage

variable (weak : Bool) (pad : String)

def fieldEnd (name : String) : String :=
  "," ++ (spaces 26 ++ ("/* " ++ (name ++ " */\n")))

theorem spelling_fieldLine (value name : String) :
    (fieldLine pad value name).spelling weak =
      pad.toList ++ (value.toList ++ (fieldEnd name).toList) := by
  rw [fieldLine, Step.spelling_text, fieldEnd]
  simp only [String.toList_append, List.append_assoc]

theorem fieldLine_tells (value value' name : String) (fact : Prop)
    (told : Tells (value.toList ++ (fieldEnd name).toList) (value'.toList ++ (fieldEnd name).toList)
      fact) :
    Tells ((fieldLine pad value name).spelling weak) ((fieldLine pad value' name).spelling weak)
      fact := by
  rw [spelling_fieldLine, spelling_fieldLine]
  exact told.after _

theorem fieldEnd_head (name : String) : (fieldEnd name).toList.head? = some ',' := by
  rw [fieldEnd, String.toList_append]
  rfl

theorem number_tells (name : String) (n m : Nat) :
    Tells ((fieldLine pad (toString n) name).spelling weak)
      ((fieldLine pad (toString m) name).spelling weak) (n = m) :=
  fieldLine_tells weak pad _ _ name _ (Tells.nat n m _ (fieldEnd_head name) (by decide))

theorem flag_tells (name : String) (b c : Bool) :
    Tells ((fieldLine pad (flagText b) name).spelling weak)
      ((fieldLine pad (flagText c) name).spelling weak) (b = c) :=
  fieldLine_tells weak pad _ _ name _ ((Tells.flag b c).before _)

theorem isEmpty_tells {α β : Type} (name : String) (xs : List α) (ys : List β) :
    PlansTell weak (.steps [fieldLine pad (flagText !xs.isEmpty) name])
      (.steps [fieldLine pad (flagText !ys.isEmpty) name])
      (xs.isEmpty = true ↔ ys.isEmpty = true) := by
  apply PlansTell.steps
  refine ((flag_tells weak pad name _ _).before []).mono fun same => ?_
  rw [Bool.not_inj same]

def isCount (c : Char) : Bool :=
  c == ' ' || c.isDigit

theorem toList_countText (n : Nat) : (countText n).toList =
    List.replicate (2 - (toString n).length) ' ' ++ (toString n).toList := by
  have blanks : (spaces (2 - (toString n).length)).toList =
      List.replicate (2 - (toString n).length) ' ' := String.toList_ofList
  rw [countText, String.toList_append, blanks]

theorem isCount_of_mem (n : Nat) (c : Char) (member : c ∈ (countText n).toList) :
    isCount c = true := by
  rw [toList_countText, List.mem_append] at member
  rcases member with blank | digit
  · rw [(List.mem_replicate.mp blank).2]
    rfl
  · rw [isCount, Decimal.isDigit_of_mem n c digit, Bool.or_true]

theorem countText_injective (n m : Nat) (equal : (countText n).toList = (countText m).toList) :
    n = m := by
  have digits (k : Nat) : (countText k).toList.filter Char.isDigit = (toString k).toList := by
    have blanks : (List.replicate (2 - (toString k).length) ' ').filter Char.isDigit = [] := by
      rw [List.filter_eq_nil_iff]
      intro c member
      rw [(List.mem_replicate.mp member).2]
      decide
    rw [toList_countText, List.filter_append, blanks, List.nil_append, List.filter_eq_self]
    exact Decimal.isDigit_of_mem k
  apply Decimal.nat_injective
  rw [← digits, ← digits, equal]

theorem count_tells (first last : String) (n m : Nat) (ends : last.toList.head? = some ']') :
    Tells (first ++ countText n ++ last).toList (first ++ countText m ++ last).toList (n = m) := by
  rw [String.toList_append, String.toList_append, String.toList_append, String.toList_append,
    List.append_assoc, List.append_assoc]
  exact ((Tells.field isCount ends (by decide) (isCount_of_mem n) (isCount_of_mem m)).mono
    (countText_injective n m)).after _

def upvalueLine (u : Upvalue) : String :=
  pad ++ "  be_local_const_upval(" ++ flagText u.inStack ++ ", " ++ toString u.index.toNat ++ "),\n"

theorem upvalueLine_tells (u v : Upvalue) :
    Tells (upvalueLine pad u).toList (upvalueLine pad v).toList (u = v) := by
  have spelled (u : Upvalue) : (upvalueLine pad u).toList =
      pad.toList ++ ("  be_local_const_upval(".toList ++ ((flagText u.inStack).toList ++
        (", ".toList ++ ((toString u.index.toNat).toList ++ "),\n".toList)))) := by
    simp only [upvalueLine, String.toList_append, List.append_assoc]
  have index := Tells.nat u.index.toNat v.index.toNat "),\n".toList rfl (by decide)
  rw [spelled, spelled]
  refine (((Tells.flag u.inStack v.inStack).append fun _ => index.after _).after _ |>.after _).mono
    fun equal => ?_
  obtain ⟨inStack, index⟩ := u
  obtain ⟨inStack', index'⟩ := v
  rw [Upvalue.mk.injEq]
  exact ⟨equal.1, UInt8.toNat_inj.mp equal.2⟩

theorem upvalues_tell (us vs : List Upvalue) :
    PlansTell weak (upvaluesPlan pad us) (upvaluesPlan pad vs) (us = vs) := by
  apply PlansTell.steps
  rw [Trace.spelling_cons, Trace.spelling_cons]
  refine ((flag_tells weak pad "has upvals" _ _).append fun same => ?_).mono And.right
  cases us with
  | nil =>
      cases vs with
      | nil => exact (Tells.same _).mono fun _ => rfl
      | cons v vs => cases same
  | cons u us =>
      cases vs with
      | nil => cases same
      | cons v vs =>
          have spelled (ws : List Upvalue) :
              Trace.spelling weak (ws.map fun w => .text (upvalueLine pad w)) =
                ws.flatMap fun w => (upvalueLine pad w).toList := by
            rw [Trace.spelling, List.flatMap_map]
            rfl
          have counts := count_tells (pad ++ "( &(const bupvaldesc[") "]) \x7b  /* upvals */\n"
            (u :: us).length (v :: vs).length rfl
          have lines (length : (u :: us).length = (v :: vs).length) :=
            Tells.sequence _ (u :: us) (v :: vs)
              (fun u _ v _ => upvalueLine_tells pad u v) length
          simp only [List.isEmpty_cons, Bool.false_eq_true, if_false]
          rw [Trace.spelling_append, Trace.spelling_append, Trace.spelling_cons,
            Trace.spelling_cons]
          have both := counts.append lines
          rw [← spelled, ← spelled] at both
          exact (both.before _).mono And.right

theorem owner_tells (owner other : Option String) (plain : ∀ name ∈ owner, PlainName name)
    (plain' : ∀ name ∈ other, PlainName name) :
    PlansTell weak (ownerPlan pad owner) (ownerPlan pad other) (owner = other) := by
  have spelled (name : String) :
      Trace.spelling weak [.text (pad ++ "&"), .write (.classSymbol name), .text ", \n"] =
        pad.toList ++ ("&".toList ++ ("be_class_".toList ++ (name.toList ++ ", \n".toList))) := by
    simp only [Trace.spelling_cons, Trace.spelling_nil, Step.spelling_text,
      Step.spelling_classSymbol, String.toList_append, List.append_assoc, List.append_nil]
  have missing : Trace.spelling weak [.text (pad ++ "NULL, \n")] =
      pad.toList ++ ("NULL, \n".toList ++ []) := by
    simp only [Trace.spelling_cons, Trace.spelling_nil, Step.spelling_text, String.toList_append,
      List.append_assoc]
  cases owner with
  | none =>
      cases other with
      | none => exact (PlansTell.same _).mono fun _ => rfl
      | some name =>
          apply PlansTell.steps
          rw [missing, spelled]
          exact (Tells.clash_append (by decide) (by decide)).after _
  | some name =>
      cases other with
      | none =>
          apply PlansTell.steps
          rw [missing, spelled]
          exact (Tells.clash_append (by decide) (by decide)).after _
      | some name' =>
          have names := (plain name rfl).tells (plain' name' rfl) ", \n".toList rfl (by decide)
          apply PlansTell.steps
          rw [spelled, spelled]
          exact (((names.after _).after _).after _).mono (congrArg some)

theorem nameText_tells (name other : String) :
    Tells ((Piece.nameText weak name).toList ++ ",\n".toList)
      ((Piece.nameText weak other).toList ++ ",\n".toList) (name = other) := by
  cases weak with
  | true =>
      have spelled (name : String) : (Piece.nameText true name).toList ++ ",\n".toList =
          "be_str_weak(".toList ++ ((Identifier.ofText name).toList ++ "),\n".toList) := by
        simp only [Piece.nameText, if_true, String.toList_append, List.append_assoc]
        rfl
      rw [spelled, spelled]
      exact (Identifier.tells_ofText name other _ rfl (by decide)).after _
  | false =>
      have spelled (name : String) : (Piece.nameText false name).toList ++ ",\n".toList =
          "&be_const_str_".toList ++ ((Identifier.ofText name).toList ++ ",\n".toList) := by
        simp only [Piece.nameText, Bool.false_eq_true, if_false, String.toList_append,
          List.append_assoc]
      rw [spelled, spelled]
      exact (Identifier.tells_ofText name other _ rfl (by decide)).after _

theorem name_tells (name other : String) (last : String) :
    PlansTell weak
      (.steps [.text pad, .write (.functionName name), .text ",\n", .text (pad ++ last)])
      (.steps [.text pad, .write (.functionName other), .text ",\n", .text (pad ++ last)])
      (name = other) := by
  apply PlansTell.steps
  simp only [Trace.spelling_cons, Trace.spelling_nil, Step.spelling_text,
    Step.spelling_functionName]
  rw [← List.append_assoc _ ",\n".toList, ← List.append_assoc _ ",\n".toList]
  exact ((nameText_tells weak name other).before _).after _

theorem trace_codeWordPlan (builtins : Nat) (name : String) (i : Instruction) (pc : Nat)
    (complete : (codeWordPlan builtins name pad i pc).trace.Complete) :
    (codeWordPlan builtins name pad i pc).trace =
      [.text (pad ++ "  "), .write (.codeWord i pc)] := by
  simp only [codeWordPlan, Plan.trace_steps] at complete ⊢
  split
  · rfl
  · rename_i slot access
    rw [access] at complete
    by_cases inside : slot < builtins
    · rw [if_pos inside]
      rfl
    · simp only [if_neg inside] at complete
      exact (complete (.global slot name) (by simp)).elim

theorem codeWord_tells (builtins builtins' : Nat) (name name' : String) (i j : Instruction)
    (pc : Nat) :
    PlansTell weak (codeWordPlan builtins name pad i pc) (codeWordPlan builtins' name' pad j pc)
      (i = j) := by
  intro complete complete'
  have digits : Tells (Hex.fixed Hex.upper 8 i.word.toNat) (Hex.fixed Hex.upper 8 j.word.toNat)
      (i = j) := by
    refine (Tells.block ?_).mono fun equal => ?_
    · rw [Hex.length_fixed, Hex.length_fixed]
    · have same := Hex.fixed_injective Hex.upper Hex.upper_injective 8 _ _ i.word.toNat_lt
        j.word.toNat_lt equal
      exact congrArg Instruction.mk (UInt32.toNat_inj.mp same)
  have comments (equal : i = j) :
      Tells (codeComment i pc).toList (codeComment j pc).toList True := by
    rw [equal]
    exact Tells.same _
  rw [trace_codeWordPlan pad builtins name i pc complete,
    trace_codeWordPlan pad builtins' name' j pc complete']
  simp only [Trace.spelling_cons, Trace.spelling_nil, Step.spelling_text, Step.spelling_codeWord]
  exact ((((digits.append comments).mono And.left).after _).before _).after _

theorem code_tells (builtins builtins' : Nat) (name name' : String)
    (code code' : List Instruction) :
    PlansTell weak (codePlan builtins name pad code) (codePlan builtins' name' pad code')
      (code = code') := by
  have counts := count_tells (pad ++ "( &(const binstruction[") "]) \x7b  /* code */\n"
    code.length code'.length rfl
  have words (length : code.length = code'.length) : PlansTell weak
      (Plan.each (fun x => codeWordPlan builtins name pad x.1 x.2) code.zipIdx)
      (Plan.each (fun x => codeWordPlan builtins' name' pad x.1 x.2) code'.zipIdx)
      (code = code') := by
    refine PlansTell.each_zipIdx _ _ code code' code code' 0
      (List.forall₂_refl code : List.Forall₂ Eq code code)
      (List.forall₂_refl code' : List.Forall₂ Eq code' code') length ?_
    rintro i _ j i' j' pc rfl rfl
    exact codeWord_tells weak pad builtins builtins' name name' i j pc
  exact ((PlansTell.text counts).andThen fun length => (words length).before _).mono And.right

end FunctionImage

end StaticImage
