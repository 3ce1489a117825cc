import Mathlib.Data.List.Pairwise
import StaticImage.Proofs.Image.Unfolding
import StaticImage.Proofs.Text.Identifiers

namespace StaticImage

inductive DataKey where
  | text (name : String)
  | number (n : Int)
  deriving DecidableEq, Repr

structure DataEntry (α : Type) where
  key : DataKey
  next : UInt32
  value : α

inductive Data where
  | nil
  | bool (b : Bool)
  | int (n : Int)
  | slot (n : Int)
  | real (r : HostReal)
  | string (content : String)
  | bytes (data : List UInt8)
  | wrapped (kind : Wrapper) (inner : Data)
  | list (items : List Data)
  | map (entries : List (DataEntry Data))

namespace Data

@[induction_eliminator]
theorem induct {motive : Data → Prop} (nil : motive .nil) (bool : ∀ b, motive (.bool b))
    (int : ∀ n, motive (.int n)) (slot : ∀ n, motive (.slot n)) (real : ∀ r, motive (.real r))
    (string : ∀ content, motive (.string content)) (bytes : ∀ data, motive (.bytes data))
    (wrapped : ∀ kind inner, motive inner → motive (.wrapped kind inner))
    (list : ∀ items, (∀ item ∈ items, motive item) → motive (.list items))
    (map : ∀ entries, (∀ e ∈ entries, motive e.value) → motive (.map entries)) (d : Data) :
    motive d := by
  refine @Data.rec motive (fun items => ∀ item ∈ items, motive item)
    (fun entries => ∀ e ∈ entries, motive e.value) (fun e => motive e.value)
    nil bool int slot real string bytes wrapped list map ?_ ?_ ?_ ?_ ?_ d
  · intro item member
    cases member
  · intro head tail here there item member
    rcases List.mem_cons.mp member with rfl | inside
    · exact here
    · exact there item inside
  · intro e member
    cases member
  · intro head tail here there e member
    rcases List.mem_cons.mp member with rfl | inside
    · exact here
    · exact there e inside
  · intro key next value holds
    exact holds

end Data

inductive StringForm where
  | long
  | weak
  | strong

inductive Opening where
  | nil
  | bool
  | int
  | slot
  | real
  | string (form : StringForm)
  | bytes
  | wrapped (kind : Wrapper)
  | list
  | map

namespace Opening

def text : Opening → String
  | nil => "be_const_nil()"
  | bool => "be_const_bool("
  | int => "be_const_int("
  | slot => "be_const_var("
  | real => "be_const_real_hex(0x"
  | string .long => "be_nested_str_long("
  | string .weak => "be_nested_str_weak("
  | string .strong => "be_nested_str("
  | bytes => "be_const_bytes_instance("
  | wrapped kind => kind.opening
  | list => "    be_nested_list("
  | map => "    be_nested_map("

def all : List Opening :=
  [nil, bool, int, slot, real, string .long, string .weak, string .strong, bytes, wrapped .map,
    wrapped .list, list, map]

theorem mem_all (o : Opening) : o ∈ all := by
  rcases o with _ | _ | _ | _ | _ | ⟨_ | _ | _⟩ | _ | ⟨_ | _⟩ | _ | _ <;> simp [all]

def Apart (first second : Opening) : Prop :=
  ¬ first.text.toList <+: second.text.toList ∧ ¬ second.text.toList <+: first.text.toList

instance (first second : Opening) : Decidable (Apart first second) :=
  inferInstanceAs (Decidable (_ ∧ _))

instance : Std.Symm Apart := ⟨fun _ _ => And.symm⟩

theorem all_apart : all.Pairwise Apart := by
  decide +kernel

theorem tells (first second : Opening) :
    Tells first.text.toList second.text.toList (first = second) := by
  by_cases equal : first = second
  · subst equal
    exact (Tells.same _).mono fun _ => rfl
  · obtain ⟨left, right⟩ := all_apart.forall (mem_all first) (mem_all second) equal
    exact (Tells.clash left right).mono False.elim

end Opening

def printedLink (next : UInt32) : Int :=
  if next = chainEnd then -1 else next.toNat

theorem printedLink_injective (first second : UInt32)
    (equal : printedLink first = printedLink second) :
    first = second := by
  unfold printedLink at equal
  split at equal
  · split at equal
    · rename_i last last'
      exact last.trans last'.symm
    · omega
  · split at equal
    · omega
    · exact UInt32.toNat_inj.mp (Int.ofNat.inj equal)

namespace DataKey

def constantKey : DataKey → ConstantKey
  | text name => .text name
  | number n => .number n

def opening (weak : Bool) : DataKey → String
  | .text _ => "        \x7b " ++ if weak then "be_const_key_weak(" else "be_const_key("
  | .number _ => "        \x7b be_const_key_int("

def word : DataKey → String
  | .text name => Identifier.ofText name
  | .number n => toString n

theorem opening_key (weak : Bool) (key : DataKey) (link : Int) :
    (key.constantKey.opening weak link).toList = (opening weak key).toList ++
      ((word key).toList ++ ", ".toList ++ ((toString link).toList ++ "), ".toList)) := by
  have text : key.constantKey.opening weak link =
      opening weak key ++ (word key ++ ", " ++ (toString link ++ "), ")) := by
    cases key with
    | text name =>
        simp only [DataKey.constantKey, ConstantKey.opening_text, Piece.keyText, opening, word,
          String.append_assoc]
        rfl
    | number n =>
        have opened : (DataKey.number n).constantKey.opening weak link =
          "        \x7b be_const_key_int(" ++ toString n ++ ", " ++ toString link ++ "), " := rfl
        simp only [opened, opening, word, String.append_assoc]
  simp only [text, String.toList_append, List.append_assoc]

theorem tells (weak : Bool) (key other : DataKey) (next next' : UInt32) :
    Tells (key.constantKey.opening weak (printedLink next)).toList
      (other.constantKey.opening weak (printedLink next')).toList
      (key = other ∧ next = next') := by
  have links : Tells ((toString (printedLink next)).toList ++ "), ".toList)
      ((toString (printedLink next')).toList ++ "), ".toList) (next = next') :=
    (Tells.int _ _ _ rfl (by decide)).mono (printedLink_injective next next')
  have apart : ∀ weak, ¬ (opening weak (.text "")).toList <+: (opening weak (.number 0)).toList ∧
      ¬ (opening weak (.number 0)).toList <+: (opening weak (.text "")).toList := by
    decide
  rw [opening_key, opening_key]
  cases key with
  | text name =>
      cases other with
      | text name' =>
          have names := Identifier.tells_ofText name name' ", ".toList rfl (by decide)
          exact Tells.after _ ((names.append fun _ => links).mono fun equal =>
            ⟨congrArg DataKey.text equal.1, equal.2⟩)
      | number n =>
          exact Tells.clash_append (apart weak).1 (apart weak).2
  | number n =>
      cases other with
      | text name =>
          exact Tells.clash_append (apart weak).2 (apart weak).1
      | number m =>
          have numbers := Tells.int n m ", ".toList rfl (by decide)
          exact Tells.after _ ((numbers.append fun _ => links).mono fun equal =>
            ⟨congrArg DataKey.number equal.1, equal.2⟩)

end DataKey

namespace Data

def form (weak : Bool) (content : String) : StringForm :=
  if Piece.longString ≤ content.utf8ByteSize then .long else if weak then .weak else .strong

def opening (weak : Bool) : Data → Opening
  | nil => .nil
  | bool _ => .bool
  | int _ => .int
  | slot _ => .slot
  | real _ => .real
  | string content => .string (form weak content)
  | bytes _ => .bytes
  | wrapped kind _ => .wrapped kind
  | list _ => .list
  | map _ => .map

def listBridge : String :=
  ",\n    ( (struct bvalue*) &(const bvalue[]) \x7b\n"

def mapBridge : String :=
  ",\n    ( (struct bmapnode*) &(const bmapnode[]) \x7b\n"

def realDigits : HostReal → List Char
  | .double bits => Hex.fixed Hex.lower 16 bits.toNat
  | .single bits => Hex.fixed Hex.upper 8 bits.toNat

mutual

def body (weak : Bool) : Data → List Char
  | .nil => []
  | .bool b => (if b then "1" else "0").toList ++ ")".toList
  | .int n => (toString n).toList ++ ")".toList
  | .slot n => (toString n).toList ++ ")".toList
  | .real r => realDigits r ++ ")".toList
  | .string content => (Identifier.ofText content).toList ++ ")".toList
  | .bytes data => data.flatMap Hex.ofByte ++ ")".toList
  | .wrapped _ inner =>
    (inner.opening weak).text.toList ++ body weak inner ++ Wrapper.closing.toList
  | .list items =>
    (toString items.length).toList ++ listBridge.toList ++
      (bodyItems weak items ++ aggregateClosing.toList)
  | .map entries =>
    (toString entries.length).toList ++ mapBridge.toList ++
      (bodyEntries weak entries ++ aggregateClosing.toList)

def bodyItems (weak : Bool) : List Data → List Char
  | [] => []
  | item :: items =>
    "        ".toList ++ ((item.opening weak).text.toList ++ body weak item) ++ ",\n".toList ++
      bodyItems weak items

def bodyEntries (weak : Bool) : List (DataEntry Data) → List Char
  | [] => []
  | ⟨key, next, value⟩ :: entries =>
    (key.constantKey.opening weak (printedLink next)).toList ++
      ((value.opening weak).text.toList ++ body weak value) ++ " \x7d,\n".toList ++
      bodyEntries weak entries

end

def text (weak : Bool) (d : Data) : List Char :=
  (d.opening weak).text.toList ++ d.body weak

theorem bodyItems_cons (weak : Bool) (item : Data) (items : List Data) :
    bodyItems weak (item :: items) =
      "        ".toList ++ item.text weak ++ ",\n".toList ++ bodyItems weak items := rfl

theorem bodyItems_eq (weak : Bool) (items : List Data) :
    bodyItems weak items =
      items.flatMap fun item => "        ".toList ++ item.text weak ++ ",\n".toList := by
  induction items with
  | nil => rfl
  | cons item items ih => rw [bodyItems_cons, ih, List.flatMap_cons]

def entryText (weak : Bool) (e : DataEntry Data) : List Char :=
  (e.key.constantKey.opening weak (printedLink e.next)).toList ++ e.value.text weak ++
    " \x7d,\n".toList

theorem bodyEntries_cons (weak : Bool) (e : DataEntry Data) (entries : List (DataEntry Data)) :
    bodyEntries weak (e :: entries) = entryText weak e ++ bodyEntries weak entries := rfl

theorem bodyEntries_eq (weak : Bool) (entries : List (DataEntry Data)) :
    bodyEntries weak entries = entries.flatMap (entryText weak) := by
  induction entries with
  | nil => rfl
  | cons e entries ih => rw [bodyEntries_cons, ih, List.flatMap_cons]

theorem realDigits_tell (r s : HostReal) :
    Tells (realDigits r ++ ")".toList) (realDigits s ++ ")".toList) (r = s) := by
  have digits (r : HostReal) (c : Char) (member : c ∈ realDigits r) : Hex.isDigit c = true := by
    cases r with
    | double bits => exact Hex.isDigit_of_mem_fixed Hex.lower (by decide) 16 _ c member
    | single bits => exact Hex.isDigit_of_mem_fixed Hex.upper (by decide) 8 _ c member
  have width (r : HostReal) : (realDigits r).length =
      match r with
      | .double _ => 16
      | .single _ => 8 := by
    cases r <;> exact Hex.length_fixed _ _ _
  refine (Tells.field Hex.isDigit rfl (by decide) (digits r) (digits s)).mono fun equal => ?_
  have widths := congrArg List.length equal
  rw [width, width] at widths
  cases r with
  | double bits =>
      cases s with
      | double other =>
          have same := Hex.fixed_injective Hex.lower Hex.lower_injective 16 _ _ bits.toNat_lt
            other.toNat_lt equal
          rw [UInt64.toNat_inj.mp same]
      | single other => cases widths
  | single bits =>
      cases s with
      | double other => cases widths
      | single other =>
          have same := Hex.fixed_injective Hex.upper Hex.upper_injective 8 _ _ bits.toNat_lt
            other.toNat_lt equal
          rw [UInt32.toNat_inj.mp same]

theorem tells (weak : Bool) (d e : Data) : Tells (d.text weak) (e.text weak) (d = e) := by
  have from_bodies (d e : Data)
      (bodies : d.opening weak = e.opening weak → Tells (d.body weak) (e.body weak) (d = e)) :
      Tells (d.text weak) (e.text weak) (d = e) :=
    ((Opening.tells _ _).append bodies).mono And.right
  induction d generalizing e with
  | nil =>
      refine from_bodies _ _ fun same => ?_
      cases e with
      | nil => exact (Tells.same _).mono fun _ => rfl
      | _ => cases same
  | bool b =>
      refine from_bodies _ _ fun same => ?_
      cases e with
      | bool c =>
          exact ((Tells.flag b c).before _).mono (congrArg Data.bool)
      | _ => cases same
  | int n =>
      refine from_bodies _ _ fun same => ?_
      cases e with
      | int m => exact (Tells.int n m _ rfl (by decide)).mono (congrArg Data.int)
      | _ => cases same
  | slot n =>
      refine from_bodies _ _ fun same => ?_
      cases e with
      | slot m => exact (Tells.int n m _ rfl (by decide)).mono (congrArg Data.slot)
      | _ => cases same
  | real r =>
      refine from_bodies _ _ fun same => ?_
      cases e with
      | real s => exact (realDigits_tell r s).mono (congrArg Data.real)
      | _ => cases same
  | string content =>
      refine from_bodies _ _ fun same => ?_
      cases e with
      | string other =>
          exact (Identifier.tells_ofText content other _ rfl (by decide)).mono (congrArg Data.string)
      | _ => cases same
  | bytes data =>
      refine from_bodies _ _ fun same => ?_
      cases e with
      | bytes other =>
          have digits (data : List UInt8) (c : Char) (member : c ∈ data.flatMap Hex.ofByte) :
              Hex.isDigit c = true := by
            obtain ⟨b, _, inside⟩ := List.mem_flatMap.mp member
            exact Hex.isDigit_of_mem_ofByte b c inside
          refine (Tells.field Hex.isDigit rfl (by decide) (digits data) (digits other)).mono ?_
          exact fun equal => congrArg Data.bytes (Hex.flatMap_ofByte_injective data other equal)
      | _ => cases same
  | wrapped kind inner ih =>
      refine from_bodies _ _ fun same => ?_
      cases e with
      | wrapped other inner' =>
          cases same
          exact ((ih inner').before _).mono (congrArg _)
      | _ => cases same
  | list items ih =>
      refine from_bodies _ _ fun same => ?_
      cases e with
      | list others =>
          have counts := Tells.nat items.length others.length listBridge.toList rfl
            (by decide)
          refine (counts.append fun length => Tells.before _ ?_).mono fun equal =>
            congrArg Data.list equal.2
          rw [bodyItems_eq, bodyItems_eq]
          refine Tells.sequence _ items others (fun item member other _ => ?_) length
          exact ((ih item member other).after _).before _
      | _ => cases same
  | map entries ih =>
      refine from_bodies _ _ fun same => ?_
      cases e with
      | map others =>
          have counts := Tells.nat entries.length others.length mapBridge.toList rfl
            (by decide)
          refine (counts.append fun length => Tells.before _ ?_).mono fun equal =>
            congrArg Data.map equal.2
          rw [bodyEntries_eq, bodyEntries_eq]
          refine Tells.sequence _ entries others (fun x member y _ => ?_) length
          have keys := DataKey.tells weak x.key y.key x.next y.next
          refine ((keys.append fun _ => ih x member y.value).before _).mono fun equal => ?_
          obtain ⟨⟨key, next⟩, value⟩ := equal
          cases x
          cases y
          cases key
          cases next
          cases value
          rfl
      | _ => cases same

end Data

end StaticImage
