import StaticImage.Proofs.Snapshot.Integers

namespace StaticImage.Snapshot

open Load

/-- Pairs of digits; the first of a pair may be a plus sign. -/
def arePairs : List Char → Bool
  | [] => true
  | [_] => false
  | high :: low :: rest => (Hex.isDigit high || high == '+') && Hex.isDigit low && arePairs rest

def shownDigit (c : Char) : Char :=
  if c = '+' then '0' else c.toUpper

theorem shownDigit_of_isDigit {c : Char} (digit : Hex.isDigit c = true) :
    shownDigit c = c.toUpper := by
  refine if_neg fun sign => ?_
  subst sign
  cases digit

theorem value?_of_isDigit {c : Char} (digit : Hex.isDigit c = true) :
    Hex.value? c = some (Hex.value c) :=
  if_pos digit

theorem hexByte?_of_digits {high low : Char} (digit : Hex.isDigit high = true ∨ high = '+')
    (digit' : Hex.isDigit low = true) :
    ∃ b, hexByte? high low = some b ∧ Hex.ofByte b = [shownDigit high, shownDigit low] := by
  obtain ⟨small', same'⟩ := Hex.upper_value_of_isDigit digit'
  unfold hexByte?
  rw [value?_of_isDigit digit', shownDigit_of_isDigit digit', ← same']
  rcases digit with digit | rfl
  · obtain ⟨small, same⟩ := Hex.upper_value_of_isDigit digit
    have unsigned : high ≠ '+' := by
      rintro rfl
      cases digit
    refine ⟨UInt8.ofNat (Hex.value high * 16 + Hex.value low), ?_, ?_⟩
    · simp [unsigned, value?_of_isDigit digit]
    · rw [Hex.ofByte_ofNat small small', shownDigit_of_isDigit digit, same]
  · refine ⟨UInt8.ofNat (0 * 16 + Hex.value low), ?_, Hex.ofByte_ofNat (by decide) small'⟩
    simp

theorem hexByte?_eq_none {high low : Char}
    (other : ((Hex.isDigit high || high == '+') && Hex.isDigit low) = false) :
    hexByte? high low = none := by
  unfold hexByte? Hex.value?
  rw [Bool.and_eq_false_iff, Bool.or_eq_false_iff, beq_eq_false_iff_ne] at other
  rcases other with ⟨high, sign⟩ | low
  · simp [high, sign]
  · simp [low]

theorem hexBytes?_spec (cs : List Char) :
    if arePairs cs then
      ∃ data, hexBytes? cs = some data ∧ data.flatMap Hex.ofByte = cs.map shownDigit
    else hexBytes? cs = none := by
  induction cs using arePairs.induct with
  | case1 => exact ⟨[], rfl, rfl⟩
  | case2 c => rfl
  | case3 high low rest ih =>
      rw [arePairs, hexBytes?]
      cases pair : (Hex.isDigit high || high == '+') && Hex.isDigit low with
      | false =>
          rw [hexByte?_eq_none pair]
          rfl
      | true =>
          rw [Bool.and_eq_true, Bool.or_eq_true, beq_iff_eq] at pair
          obtain ⟨b, byte, digits⟩ := hexByte?_of_digits pair.1 pair.2
          rw [Bool.true_and, byte]
          cases pairs : arePairs rest with
          | false =>
              rw [pairs] at ih
              simp [show hexBytes? rest = none from ih]
          | true =>
              rw [pairs] at ih
              obtain ⟨data, read, later⟩ := ih
              refine ⟨b :: data, by simp [read], ?_⟩
              rw [List.flatMap_cons, digits, later]
              rfl

/-- Without a sign the pairs are digits of which there are evenly many. -/
theorem arePairs_iff_digits {cs : List Char} (unsigned : '+' ∉ cs) :
    arePairs cs = true ↔ cs.length % 2 = 0 ∧ ∀ c ∈ cs, Hex.isDigit c = true := by
  induction cs using arePairs.induct with
  | case1 => simp [arePairs]
  | case2 c => simp [arePairs]
  | case3 high low rest ih =>
      have plain : high ≠ '+' := fun sign => unsigned (sign ▸ List.mem_cons_self)
      have later := ih fun sign => unsigned (List.mem_cons_of_mem _ (List.mem_cons_of_mem _ sign))
      have even : (rest.length + 1 + 1) % 2 = 0 ↔ rest.length % 2 = 0 := by omega
      simp only [arePairs, Bool.and_eq_true, Bool.or_eq_true, beq_iff_eq, plain, or_false, later,
        List.length_cons, even, List.forall_mem_cons]
      tauto

theorem shownDigit_of_unsigned {cs : List Char} (unsigned : '+' ∉ cs) :
    cs.map shownDigit = cs.map Char.toUpper :=
  List.map_congr_left fun c member => if_neg fun (sign : c = '+') => unsigned (sign ▸ member)

def Spells (h : Heap) (id : InstanceId) (content : String) : Prop :=
  ∀ isStatic options key,
    (h.express ⟨.instanceObject id, isStatic⟩ options key).1.error = none ∧
      (h.express ⟨.instanceObject id, isStatic⟩ options key).1.bytes =
        ("be_const_bytes_instance(" ++ String.ofList (content.toList.map shownDigit) ++
          ")").toUTF8.data.toList

theorem constant_bytes {h : Heap} {id : InstanceId} {data : List UInt8} (isStatic : Bool)
    (present : h.instance? id = some (.bytes data)) :
    h.constant ⟨.instanceObject id, isStatic⟩ = .bytes data := by
  have positive : 0 < h.nesting := Nat.mul_pos (Nat.succ_pos _) (Nat.succ_pos _)
  obtain ⟨nesting, same⟩ := Nat.exists_eq_add_one.mpr positive
  rw [Heap.constant, same, Heap.unfold]
  dsimp only
  rw [present]
  rfl

theorem spells_of_bytes {h : Heap} {id : InstanceId} {content : String} {data : List UInt8}
    (present : h.instance? id = some (.bytes data))
    (digits : data.flatMap Hex.ofByte = content.toList.map shownDigit) : Spells h id content := by
  intro isStatic options key
  have text : bytesText data = "be_const_bytes_instance(" ++
      String.ofList (content.toList.map shownDigit) ++ ")" := by
    unfold bytesText
    rw [digits]
  rw [← text]
  refine Heap.express_text ?_
  rw [constant_bytes isStatic present]
  rfl

section

variable {s : Scope} {h : Heap} {function : Located String} {argument : Located Expr}
  {content : String}

theorem value_bytes (span : Span) (named : function.value = "bytes")
    (text : argument.value = .string content) :
    if arePairs content.toList then
      ∃ data, data.flatMap Hex.ofByte = content.toList.map shownDigit ∧
        value s (.call function [argument]) span h =
          .ok (.plain (.instanceObject ⟨h.instances.size⟩),
            { h with instances := h.instances.push (.bytes data) })
    else value s (.call function [argument]) span h = .error ⟨.invalidHex, argument.span⟩ := by
  obtain ⟨e, at_⟩ := argument
  cases text
  have applied : value s (.call function [⟨.string content, at_⟩]) span h =
      ((hexBytes? content.toList).elim (fail .invalidHex at_) fun data => newInstance (.bytes data)
        : Load Value) h := by
    have strings : stringOf ⟨.string content, at_⟩ = (pure content : Load String) := rfl
    unfold value construct
    rw [named]
    dsimp only
    rw [strings, pure_bind]
    cases hexBytes? content.toList <;> rfl
  rw [applied]
  have spec := hexBytes?_spec content.toList
  by_cases pairs : arePairs content.toList = true
  · rw [if_pos pairs] at spec ⊢
    obtain ⟨data, read, digits⟩ := spec
    rw [read]
    exact ⟨data, digits, rfl⟩
  · rw [if_neg pairs] at spec ⊢
    rw [spec]
    rfl

theorem instance?_push (h : Heap) (i : InstanceObject) :
    { h with instances := h.instances.push i }.instance? ⟨h.instances.size⟩ = some i :=
  Array.getElem?_push_size

end

variable {host : Host} {content : String}

theorem spells_of_loaded {items : List Item} {loaded : Loaded} {function : Located String}
    {argument : Located Expr} {span : Span} (lowered : lower host items = .ok loaded)
    (member : ⟨.call function [argument], span⟩ ∈ evaluatedOf items)
    (named : function.value = "bytes") (text : argument.value = .string content) :
    arePairs content.toList = true ∧
      ∃ visit ∈ visitsOf host items, visit.expression = ⟨.call function [argument], span⟩ ∧
        ∃ id after, valueOf (scopeOf host items) visit.expression visit.heap =
          .ok (.plain (.instanceObject id), after) ∧ Spells loaded.heap id content := by
  obtain ⟨⟨e, h⟩, made, same, _, v, after, run, keeps⟩ :=
    (lower_lowers lowered).visits.evaluated member
  obtain rfl : e = ⟨.call function [argument], span⟩ := same
  have spec := value_bytes (s := scopeOf host items) (h := h) span named text
  split at spec
  · rename_i pairs
    obtain ⟨data, digits, evaluated⟩ := spec
    obtain ⟨rfl, rfl⟩ := Prod.mk.inj (Except.ok.inj (evaluated.symm.trans run))
    refine ⟨pairs, _, made, rfl, _, _, run, spells_of_bytes ?_ digits⟩
    have stays : loaded.heap.instance? ⟨h.instances.size⟩ = _ :=
      keeps.retains (.instanceObject ⟨h.instances.size⟩) rfl (by simp [Heap.Has])
    rw [stays]
    exact instance?_push h (.bytes data)
  · cases spec.symm.trans run

theorem literal_of_form {e : Located Expr} (form : e.value.form = .call "bytes" [.string content]) :
    ∃ function argument, e = ⟨.call function [argument], e.span⟩ ∧ function.value = "bytes" ∧
      argument.value = .string content := by
  obtain ⟨e, span⟩ := e
  cases e with
  | call function arguments =>
      rw [Expr.form, formsOf_eq_map] at form
      obtain ⟨named, given⟩ := Form.call.inj form
      obtain ⟨⟨argument, at_⟩, rfl, same⟩ := List.map_eq_singleton_iff.mp given
      cases argument with
      | string other =>
          cases same
          exact ⟨function, _, rfl, named, rfl⟩
      | _ => simp [Expr.form] at same
  | _ => simp [Expr.form] at form

theorem lexical_of_literal {arguments : Series Phrase}
    (argument : arguments.elements = [.string content]) {t : Token}
    (member : t ∈ (Phrase.call "bytes" arguments).tokens) : t.Lexical := by
  simp only [Phrase.tokens, Phrase.itemTokens_eq, List.mem_append, List.mem_cons,
    List.not_mem_nil, or_false] at member
  rcases member with (rfl | rfl | inside) | rfl
  · exact .word "bytes".toList (.intro 'b' "ytes".toList rfl (List.all_eq_true.mp rfl))
  · exact .mark _ (by decide)
  · rcases Series.mem_of_mem_tokens inside with rfl | ⟨d, listed, inside⟩
    · exact .mark _ (by decide)
    · rw [argument, List.mem_singleton] at listed
      subst listed
      exact List.mem_singleton.mp inside ▸ .string content
  · exact .mark _ (by decide)

theorem load_bytes {name : String} (named : (Token.ident name).Lexical)
    {constants arguments : Series Phrase} (single : constants.elements = [.call "bytes" arguments])
    (argument : arguments.elements = [.string content]) (lead : List Filler) {rows : List Printed}
    (tokens : rows.map Prod.fst = (constantsPhrase name constants).tokens)
    (apart : rows.IsChain Lexeme.Apart) :
    if arePairs content.toList then
      ∃ data, load host (String.ofList (layout lead rows)) =
          .ok ⟨constantsHeap name [.plain (.instanceObject ⟨0⟩)] [.bytes data],
            [(name, .plain (.closure ⟨0⟩))]⟩ ∧
        Spells (constantsHeap name [.plain (.instanceObject ⟨0⟩)] [.bytes data]) ⟨0⟩ content
    else ∃ items function e span, parse (String.ofList (layout lead rows)) = .ok items ∧
      ⟨.call function [e], span⟩ ∈ evaluatedOf items ∧ e.value = .string content ∧
      load host (String.ofList (layout lead rows)) = .error (.items [⟨.invalidHex, e.span⟩]) := by
  have lexical (row : Printed) (member : row ∈ rows) : row.1.Lexical := by
    refine forall_mem_constants (fun _ lexical => lexical) named (fun d listed t inside => ?_) row.1
      (tokens ▸ List.mem_map_of_mem member)
    rw [single, List.mem_singleton] at listed
    exact lexical_of_literal argument (listed ▸ inside)
  obtain ⟨items, es, parsed, evaluated, forms, loads⟩ :=
    load_constants host lead tokens lexical apart
  rw [single] at forms
  obtain ⟨e, rfl, form⟩ := List.map_eq_singleton_iff.mp forms
  rw [Phrase.form, Phrase.itemForms_eq, argument] at form
  obtain ⟨function, argument, whole, called, text⟩ := literal_of_form form
  generalize e.span = span at whole
  subst whole
  have alone : values (constantsScope host name) [⟨.call function [argument], span⟩]
        (constantsHeap name [] []) =
      (value (constantsScope host name) (.call function [argument]) span
        (constantsHeap name [] []) >>= fun (r : Value × Heap) => Except.ok ([r.1], r.2)) := by
    rfl
  have spec := value_bytes (s := constantsScope host name) (h := constantsHeap name [] [])
    span called text
  rw [loads, alone]
  by_cases pairs : arePairs content.toList = true
  · rw [if_pos pairs] at spec ⊢
    obtain ⟨data, digits, evaluated⟩ := spec
    refine ⟨data, ?_, spells_of_bytes rfl digits⟩
    rw [evaluated]
    change Except.ok (Loaded.mk (Heap.modifyProto (constantsHeap name [] [.bytes data]) _ _) _) = _
    rw [constantsHeap_modifyProto]
    rfl
  · rw [if_neg pairs] at spec ⊢
    refine ⟨items, function, argument, span, parsed, ?_, text, ?_⟩
    · rw [evaluated]
      simp [itemsEvaluated, Expr.evaluated]
    · rw [spec]
      rfl

/-- A byte literal is accepted exactly if it has pairs of digits only, where a plus sign may stand
for the first digit of a pair; without signs these are evenly many digits. What is loaded for it is
written as its digits in upper case, with zeros for signs, and any other literal is refused at its
argument. -/
theorem byte_literals_are_kept (host : Host) (content : String) :
    ('+' ∉ content.toList →
      (arePairs content.toList = true ↔
        content.toList.length % 2 = 0 ∧ ∀ c ∈ content.toList, Hex.isDigit c = true) ∧
      content.toList.map shownDigit = content.toList.map Char.toUpper) ∧
    (∀ (s : Scope) (h : Heap) function argument span, function.value = "bytes" →
      argument.value = .string content →
        if arePairs content.toList then
          ∃ id after, valueOf s ⟨.call function [argument], span⟩ h =
            .ok (.plain (.instanceObject id), after) ∧ Spells after id content
        else valueOf s ⟨.call function [argument], span⟩ h = .error ⟨.invalidHex, argument.span⟩) ∧
    (∀ text items loaded function argument span, parse text = .ok items →
      load host text = .ok loaded → ⟨.call function [argument], span⟩ ∈ evaluatedOf items →
      function.value = "bytes" → argument.value = .string content →
        arePairs content.toList = true ∧
          ∃ visit ∈ visitsOf host items, visit.expression = ⟨.call function [argument], span⟩ ∧
            ∃ id after, valueOf (scopeOf host items) visit.expression visit.heap =
              .ok (.plain (.instanceObject id), after) ∧ Spells loaded.heap id content) ∧
    ∀ name constants arguments lead (rows : List Printed), (Token.ident name).Lexical →
      constants.elements = [.call "bytes" arguments] → arguments.elements = [.string content] →
      rows.map Prod.fst = (constantsPhrase name constants).tokens → rows.IsChain Lexeme.Apart →
        if arePairs content.toList then
          ∃ data, load host (String.ofList (layout lead rows)) =
              .ok ⟨constantsHeap name [.plain (.instanceObject ⟨0⟩)] [.bytes data],
                [(name, .plain (.closure ⟨0⟩))]⟩ ∧
            Spells (constantsHeap name [.plain (.instanceObject ⟨0⟩)] [.bytes data]) ⟨0⟩ content
        else ∃ items function e span, parse (String.ofList (layout lead rows)) = .ok items ∧
          ⟨.call function [e], span⟩ ∈ evaluatedOf items ∧ e.value = .string content ∧
          load host (String.ofList (layout lead rows)) =
            .error (.items [⟨.invalidHex, e.span⟩]) := by
  refine ⟨fun unsigned => ⟨arePairs_iff_digits unsigned, shownDigit_of_unsigned unsigned⟩,
    fun s h function argument span named text => ?_,
    fun text items loaded function argument span parsed loads member named same => ?_,
    fun name constants arguments lead rows named single argument tokens apart => ?_⟩
  · have spec := value_bytes (s := s) (h := h) span named text
    split at spec
    · rename_i pairs
      obtain ⟨data, digits, evaluated⟩ := spec
      rw [if_pos pairs]
      exact ⟨_, _, evaluated, spells_of_bytes (instance?_push h (.bytes data)) digits⟩
    · rename_i pairs
      rw [if_neg pairs]
      exact spec
  · obtain ⟨items, again, lowered⟩ := (load_eq_ok_iff host text loaded).mp loads
    cases parsed.symm.trans again
    exact spells_of_loaded lowered member named same
  · exact load_bytes named single argument lead tokens apart

/-- A sign and a digit are no two digits, and are accepted as a byte. -/
theorem signed_digit_is_accepted :
    ¬ (∀ c ∈ "+1".toList, Hex.isDigit c = true) ∧
      ∃ loaded, load .wide "closure c \x7b consts: [bytes(\"+1\")] \x7d" = .ok loaded ∧
        loaded.heap.instances = #[.bytes [1]] := by
  refine ⟨by simp [Hex.isDigit], ?_⟩
  have accepted : (load .wide "closure c \x7b consts: [bytes(\"+1\")] \x7d").toOption.any
      fun loaded => decide (loaded.heap.instances = #[.bytes [1]]) := by
    decide +kernel
  obtain ⟨loaded, loads, same⟩ := exists_ok_of_any accepted
  exact ⟨loaded, loads, of_decide_eq_true same⟩

def literalRows (content : String) : List Printed :=
  snugRows "c" [.ident "bytes", .openParen, .string content, .closeParen]

def nestedLiteral : String :=
  "class A \x7bmembers: \x7ba: [static(bytes(\"0aF9\"))]\x7d\x7d"

theorem mixed_digits_are_kept :
    ("0aF9".toList.length % 2 = 0 ∧ ∀ c ∈ "0aF9".toList, Hex.isDigit c = true) ∧
    (∃ data, load .wide (String.ofList (layout [] (literalRows "0aF9"))) =
        .ok ⟨constantsHeap "c" [.plain (.instanceObject ⟨0⟩)] [.bytes data],
          [("c", .plain (.closure ⟨0⟩))]⟩ ∧
      Spells (constantsHeap "c" [.plain (.instanceObject ⟨0⟩)] [.bytes data]) ⟨0⟩ "0aF9") ∧
    (∃ problems, load .wide (String.ofList (layout [] (literalRows "a+\u20ac"))) =
      .error (.items problems)) ∧
    ∃ loaded, load .wide nestedLiteral = .ok loaded ∧ ∃ id, Spells loaded.heap id "0aF9" := by
  have named : (Token.ident "c").Lexical := .word ['c'] (.intro 'c' [] rfl (by simp))
  have apart (content : String) : (literalRows content).IsChain Lexeme.Apart := by
    simp [literalRows, snugRows, Lexeme.Apart, Lexeme.isClosed]
  obtain ⟨unsigned, _, nested, closures⟩ := byte_literals_are_kept .wide "0aF9"
  obtain ⟨_, _, _, refused⟩ := byte_literals_are_kept .wide "a+\u20ac"
  have loads := closures "c" (.last (.call "bytes" (.last (.string "0aF9"))))
    (.last (.string "0aF9")) [] (literalRows "0aF9") named rfl rfl rfl (apart _)
  have fails := refused "c" (.last (.call "bytes" (.last (.string "a+\u20ac"))))
    (.last (.string "a+\u20ac")) [] (literalRows "a+\u20ac") named rfl rfl rfl (apart _)
  rw [if_pos (by decide)] at loads
  rw [if_neg (by decide)] at fails
  obtain ⟨_, _, argument, _, _, _, _, fails⟩ := fails
  have found : (parse nestedLiteral).toOption.any fun items =>
      (lower .wide items).toOption.any fun _ => (evaluatedOf items).any fun e =>
        decide (e.value.form = .call "bytes" [.string "0aF9"]) := by
    decide +kernel
  obtain ⟨items, parsed, found⟩ := exists_ok_of_any found
  obtain ⟨loaded, lowered, found⟩ := exists_ok_of_any found
  obtain ⟨e, member, form⟩ := List.any_eq_true.mp found
  obtain ⟨function, argument, whole, called, text⟩ := literal_of_form (of_decide_eq_true form)
  rw [whole] at member
  have whole := (load_eq_ok_iff .wide nestedLiteral loaded).mpr ⟨items, parsed, lowered⟩
  obtain ⟨_, _, _, _, id, _, _, spells⟩ :=
    nested _ _ _ _ _ _ parsed whole member called text
  exact ⟨(unsigned (by decide)).1.mp (by decide), loads, ⟨_, fails⟩, loaded, whole, id, spells⟩

end StaticImage.Snapshot
