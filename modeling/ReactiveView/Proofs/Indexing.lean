import ReactiveView.Proofs.Numerals
import ReactiveView.Proofs.Packing
import ReactiveView.Reactive.Evaluation

/-!
# Members and elements

A name between brackets leads where the name behind a point leads, but for one name: lists
and texts have a length as a member, while brackets take nothing but positions there. A
position is any value whose numeric reading is a whole number below the length; whatever else
stands between the brackets of a list or a text leads to null, and never to an error.
-/

namespace ReactiveView

set_option autoImplicit false

theorem Text.trimmed_of_visible {characters : List Char}
    (visible : ∀ c ∈ characters, isBlank c = false) : Trimmed characters characters := by
  refine ⟨⟨[], [], by simp, nofun, nofun⟩, ?_, ?_⟩
  · rintro c rest rfl
    exact visible c List.mem_cons_self
  · rintro rest c rfl
    exact visible c (List.mem_append_right rest List.mem_cons_self)

namespace Number

theorem bare_of_startsWord {c : Char} (starts : Token.startsWord c = true) (rest : List Char) :
    Bare (c :: rest) := by
  refine bare_cons ?_ ?_ rest
  · rintro rfl
    exact absurd starts (by decide)
  · rintro rfl
    exact absurd starts (by decide)

/-- A numeral that begins like a word is infinity. -/
theorem Numeral.of_startsWord {c : Char} {rest : List Char} {x : Float}
    (numeral : Numeral (c :: rest) x) (starts : Token.startsWord c = true) :
    x = 1.0 / 0.0 := by
  have bare := bare_of_startsWord starts rest
  generalize spelled : c :: rest = characters at numeral bare
  cases numeral with
  | blank => cases spelled
  | infinity signs =>
      obtain ⟨rfl, rfl⟩ := signs.of_bare bare
      rfl
  | decimal signs plain =>
      obtain ⟨rfl, rfl⟩ := signs.of_bare bare
      obtain ⟨d, tail, rfl, digit | rfl⟩ := plain.head
      · cases spelled
        rw [Token.isDigit_of_startsWord starts] at digit
        cases digit
      · cases spelled
        exact absurd starts (by decide)

theorem read_of_names {text : String} {x : Float} (named : Token.Names text.toList)
    (reads : read text = some x) : x = 1.0 / 0.0 := by
  obtain ⟨c, rest, spelled, starts, continues, -⟩ := named
  have visible : ∀ d ∈ text.toList, Text.isBlank d = false := by
    intro d member
    rw [spelled, List.mem_cons] at member
    rcases member with rfl | member
    · exact Token.isBlank_of_continuesWord (Token.continuesWord_of_startsWord starts)
    · exact Token.isBlank_of_continuesWord (continues d member)
  have zero : c ≠ '0' := by
    rintro rfl
    exact absurd starts (by decide)
  have trimmed := Text.trimmed_of_visible visible
  have numeral := (read_eq_some_iff trimmed fun mark tail base same =>
    absurd (List.cons.inj (spelled.symm.trans same)).1 zero).mp reads
  rw [spelled] at numeral
  exact numeral.of_startsWord starts

theorem natural?_infinity : natural? (1.0 / 0.0) = none := by decide +kernel

end Number

theorem Access.position?_of_names {name : String} (named : Token.Names name.toList) :
    Access.position? (.text name) = none := by
  cases reads : Number.read name with
  | none => simp [Access.position?, Value.number?, reads]
  | some x =>
      rw [Access.position?, Value.number?, reads, Number.read_of_names named reads]
      exact Number.natural?_infinity

/-- The length of a list or a text. Nothing else has one. -/
def Store.length? (store : Store) : Value → Option Nat
  | .list list => some (store.items list).length
  | .text text => some (Text.units text.toList).length
  | _ => none

theorem Store.text_text (store : Store) (text : String) : store.text (.text text) = text := by
  rw [Store.text, textWithin]
  rfl

namespace Access

variable {store : Store} {target : Value} {name : String} {length : Nat}

theorem member_length (measured : store.length? target = some length) :
    member store target "length" = .ok (.value (.number (Float.ofNat length))) := by
  cases target <;> cases measured <;> rfl

theorem member_of_ne_length (measured : store.length? target = some length)
    (other : name ≠ "length") : member store target name = .ok (.value .null) := by
  cases target <;> cases measured <;> simp [member, other]

theorem element_of_names (named : Token.Names name.toList)
    (measured : store.length? target = some length) :
    element store target (.text name) = .ok (.value .null) := by
  cases target <;> cases measured <;> simp [element, position?_of_names named]

theorem element_of_unmeasured {index : Value} (unmeasured : store.length? target = none) :
    element store target index = member store target (store.text index) := by
  cases target <;> cases unmeasured <;> rfl

end Access

namespace Engine

variable {κ σ : Type} {invoke : Invoke κ σ} {context : Context κ} {target : Expression}
  {name : String} {state later : State κ σ} {value : Value} {length : Nat}

theorem evaluate_member_of_ended
    (ended : evaluate invoke context target state = .ended (.ok value) later) :
    evaluate invoke context (.member target name) state =
      (do readAccess (← ofExcept (Access.member later.store value name))) later := by
  rw [evaluate]
  exact bind_of_ok ended _

theorem evaluate_index_of_ended {position : Expression} {between : State κ σ} {index : Value}
    (first : evaluate invoke context target state = .ended (.ok value) between)
    (second : evaluate invoke context position between = .ended (.ok index) later) :
    evaluate invoke context (.index target position) state =
      (do readAccess (← ofExcept (Access.element later.store value index))) later := by
  rw [evaluate, bind_of_ok first, bind_of_ok second]
  rfl

theorem evaluate_text (text : String) :
    evaluate invoke context (.literal (.text text)) state = .ended (.ok (.text text)) state :=
  rfl

/-- What an expression gives has a length, and the length is asked for by its name. -/
def AsksLength (invoke : Invoke κ σ) (context : Context κ) (target : Expression) (name : String)
    (state later : State κ σ) (length : Nat) : Prop :=
  name = "length" ∧ ∃ value,
    evaluate invoke context target state = .ended (.ok value) later ∧
      later.store.length? value = some length

/-- Between brackets and behind a point, a name leads to one value or one error, and the same
slots are read on the way: the whole course of the evaluation is the same. Only the length of
a list or a text is nothing between brackets. -/
theorem index_agrees_with_member (invoke : Invoke κ σ) (context : Context κ)
    (target : Expression) (name : String) (named : Token.Names name.toList)
    (state : State κ σ) :
    ((∀ later length, ¬ AsksLength invoke context target name state later length) →
      evaluate invoke context (.index target (.literal (.text name))) state =
        evaluate invoke context (.member target name) state) ∧
    ∀ later length, AsksLength invoke context target name state later length →
      evaluate invoke context (.index target (.literal (.text name))) state =
          .ended (.ok .null) later ∧
        evaluate invoke context (.member target name) state =
          .ended (.ok (.number (Float.ofNat length))) later := by
  constructor
  · intro unasked
    cases ended : evaluate invoke context target state with
    | stopped later => simp only [evaluate, Bind.bind, bind, ended]
    | ended outcome later =>
        cases outcome with
        | error error => rw [evaluate, evaluate, bind_of_error ended, bind_of_error ended]
        | ok value =>
            rw [evaluate_index_of_ended ended (evaluate_text name), evaluate_member_of_ended ended]
            cases measured : later.store.length? value with
            | none => rw [Access.element_of_unmeasured measured, Store.text_text]
            | some length =>
                have other : name ≠ "length" := fun same =>
                  unasked later length ⟨same, value, ended, measured⟩
                rw [Access.element_of_names named measured,
                  Access.member_of_ne_length measured other]
  · rintro later length ⟨rfl, value, ended, measured⟩
    rw [evaluate_index_of_ended ended (evaluate_text _), evaluate_member_of_ended ended,
      Access.element_of_names named measured, Access.member_length measured]
    exact ⟨rfl, rfl⟩

def tagged : State Unit Unit :=
  let tags := Store.empty.newList [.text "x", .text "y"]
  { State.initial () with store := (tags.2.newRecord [("tags", .list tags.1)]).2 }

theorem names_length : Token.Names "length".toList :=
  ⟨'l', ['e', 'n', 'g', 't', 'h'], rfl, rfl, List.all_eq_true.mp (by decide), by decide⟩

theorem index_agrees_with_member_tagged :
    evaluate (fun _ _ => fail .nestedEvaluation) ⟨⟨0⟩, .empty⟩
        (.index (.identifier "tags") (.literal (.text "length"))) tagged =
          .ended (.ok .null) tagged ∧
      evaluate (fun _ _ => fail .nestedEvaluation) ⟨⟨0⟩, .empty⟩
        (.member (.identifier "tags") "length") tagged =
          .ended (.ok (.number (Float.ofNat 2))) tagged :=
  (index_agrees_with_member (fun _ _ => fail .nestedEvaluation) ⟨⟨0⟩, .empty⟩
    (.identifier "tags") "length" names_length tagged).2 tagged 2 ⟨rfl, .list ⟨0⟩, rfl, rfl⟩

/-- A list has a length behind a point and none between brackets. -/
theorem length_lost_between_brackets :
    Expression.parse? "tags.length" = some (.member (.identifier "tags") "length") ∧
    Expression.parse? "tags['length']" =
      some (.index (.identifier "tags") (.literal (.text "length"))) ∧
    evaluate (fun _ _ => fail .nestedEvaluation) ⟨⟨0⟩, .empty⟩
        (.index (.identifier "tags") (.literal (.text "length"))) tagged ≠
      evaluate (fun _ _ => fail .nestedEvaluation) ⟨⟨0⟩, .empty⟩
        (.member (.identifier "tags") "length") tagged := by
  refine ⟨by decide +kernel, by decide +kernel, fun same => ?_⟩
  have outcome := congrArg Course.ended? same
  cases outcome

end Engine

namespace Number

open Float.Model (UnpackedFloat)

/-- The rational number that a floating-point number is, if it is finite. -/
def value? (x : Float) : Option ℚ :=
  match x.toModel.unpack with
  | .zero _ => some 0
  | .finite sign mantissa power _ => some (sign.apply mantissa * 2 ^ power)
  | _ => none

/-- The whole number found is the number itself. -/
theorem natural?_eq_some_iff (x : Float) (whole : Nat) :
    natural? x = some whole ↔ value? x = some (whole : ℚ) := by
  unfold natural? value?
  split
  · next unpacked =>
      rw [unpacked]
      simp [eq_comm]
  · next mantissa power positive unpacked =>
      rw [unpacked]
      have binary := zpow_eq_div 2 two_ne_zero power
      change _ ↔ some (((mantissa : Int) : ℚ) * 2 ^ power) = some (whole : ℚ)
      rw [Option.some_inj, binary, Int.cast_natCast]
      split
      · next whole' =>
          rw [show (-power).toNat = 0 by omega, pow_zero, div_one, Option.some_inj]
          exact_mod_cast Iff.rfl
      · next fractional =>
          rw [show power.toNat = 0 by omega, pow_zero, mul_one_div,
            div_eq_iff (by positivity)]
          norm_cast
          split
          · next divides =>
              rw [Option.some_inj]
              exact Nat.div_eq_iff_eq_mul_left (Nat.two_pow_pos _) (Nat.dvd_of_mod_eq_zero divides)
          · next rest =>
              refine ⟨nofun, fun same => absurd ?_ rest⟩
              rw [same]
              exact Nat.mul_mod_left ..
  · next vanishing rising =>
      cases unpacked : x.toModel.unpack with
      | zero sign => exact absurd unpacked (vanishing sign)
      | infinity => exact ⟨nofun, nofun⟩
      | notANumber => exact ⟨nofun, nofun⟩
      | finite sign mantissa power positive =>
          cases sign with
          | positive => exact absurd unpacked (rising mantissa power positive)
          | negative =>
              refine ⟨nofun, fun same => ?_⟩
              have below : (((-(mantissa : Int) : Int)) : ℚ) * 2 ^ power = whole :=
                Option.some.inj same
              have size : (0 : ℚ) < mantissa * 2 ^ power := by positivity
              have least : (0 : ℚ) ≤ whole := Nat.cast_nonneg whole
              push_cast at below
              linarith

theorem value?_ofNat {whole : Nat} (small : whole < 2 ^ 53) :
    value? (Float.ofNat whole) = some (whole : ℚ) := by
  by_cases zero : whole = 0
  · subst zero
    decide +kernel
  · have positive := Nat.pos_of_ne_zero zero
    have canonical := Binary.canonical_ofNat positive small
    have whole' := Binary.value_ofNat small
    have rounds : (Binary.ofNat whole).Rounds (Decimal.value ⟨whole, 0⟩) := by
      rw [Decimal.value, zpow_zero, mul_one, ← whole']
      exact Binary.rounds_value _
    have same : Float.ofNat whole = Decimal.toFloat ⟨whole, 0⟩ := rfl
    rw [same, value?, Decimal.unpack_toFloat canonical (Binary.power_ofNat small) rounds]
    exact congrArg some whole'

end Number

/-- The numeric reading of the value is this whole number. -/
def Value.Stands (index : Value) (whole : Nat) : Prop :=
  ∃ x, index.number? = some x ∧ Number.value? x = some (whole : ℚ)

/-- The element of a list at a position, or the text of the unit of a text there. -/
def Store.element? (store : Store) (target : Value) (position : Nat) : Option Value :=
  match target with
  | .list list => (store.items list)[position]?.map Slot.value
  | .text text => (Text.units text.toList)[position]?.map fun unit =>
      .text (String.singleton (Text.ofUnit unit))
  | _ => none

theorem Access.position?_eq_some_iff (index : Value) (whole : Nat) :
    position? index = some whole ↔ index.Stands whole := by
  simp only [position?, Option.bind_eq_some_iff, Number.natural?_eq_some_iff, Value.Stands]

theorem Store.element?_eq_none_iff {store : Store} {target : Value} {length : Nat}
    (measured : store.length? target = some length) (position : Nat) :
    store.element? target position = none ↔ length ≤ position := by
  cases target <;> cases measured <;> simp [element?]

/-- The texts of the units of a text in the basic plane are its characters. -/
theorem Text.join_units {characters : List Char} (basic : ∀ c ∈ characters, c.toNat < 0x10000) :
    (units characters).map (fun unit => String.singleton (ofUnit unit)) =
      characters.map String.singleton := by
  induction characters with
  | nil => rfl
  | cons c rest induction =>
      rw [List.forall_mem_cons] at basic
      obtain ⟨alone, back⟩ := ofUnit_toNat c basic.1
      have split : units (c :: rest) = unitsOf c ++ units rest := rfl
      rw [split, alone, List.map_append, induction basic.2]
      simp [back]

theorem Text.join_singletons (characters : List Char) :
    String.join (characters.map String.singleton) = String.ofList characters := by
  rw [← String.toList_inj, String.toList_join, List.flatMap_map]
  simp

namespace Engine

variable {κ σ : Type}

theorem readAccess_slot (place : Place) (state : State κ σ) :
    ∃ after, readAccess (.slot place) state =
      .ended (.ok ((state.store.peek place).getD .null)) after := by
  refine ⟨(State.read place state).2, ?_⟩
  have found : (State.read place state).1 = state.store.peek place := by
    rw [State.read, Store.peek]
    split <;> simp_all
  rw [← found]
  rfl

theorem readAccess_element {state : State κ σ} {target : Value} {length : Nat}
    (measured : state.store.length? target = some length) (index : Value) :
    ∃ after, (do readAccess (← ofExcept (Access.element state.store target index))) state =
      .ended (.ok (((Access.position? index).bind (state.store.element? target)).getD .null))
        after := by
  cases target with
  | list list =>
      rw [Access.element]
      cases found : Access.position? index with
      | none => exact ⟨state, rfl⟩
      | some position => exact readAccess_slot (.item list position) state
  | text text =>
      refine ⟨state, ?_⟩
      rw [Access.element]
      cases found : Access.position? index with
      | none => rfl
      | some position =>
          have same : Access.unitAt text position =
              (state.store.element? (.text text) position).getD .null := by
            rw [Access.unitAt, Store.element?]
            cases (Text.units text.toList)[position]? <;> rfl
          exact congrArg (fun value => Course.ended (.ok value) state) same
  | null => cases measured
  | bool value => cases measured
  | number value => cases measured
  | record record => cases measured

/-- Whatever stands between the brackets of a list or a text, there is no error: a value that
reads as a whole number below the length gives the element at that position, and any other
gives null. So a text in the basic plane is put together again from its elements. -/
theorem indexing_exact (invoke : Invoke κ σ) (context : Context κ) :
    (∀ (target position : Expression) (state between later : State κ σ) (value index : Value)
        (length : Nat),
      evaluate invoke context target state = .ended (.ok value) between →
      evaluate invoke context position between = .ended (.ok index) later →
      later.store.length? value = some length →
      ∃ result after,
        evaluate invoke context (.index target position) state = .ended (.ok result) after ∧
        (∀ whole, whole < length → index.Stands whole →
          later.store.element? value whole = some result) ∧
        ((∀ whole, whole < length → ¬ index.Stands whole) → result = .null)) ∧
    (∀ text : String, (∀ c ∈ text.toList, c.toNat < 0x10000) →
      ∃ pieces : List String, String.join pieces = text ∧
        pieces.length = (Text.units text.toList).length ∧
        ∀ whole (inside : whole < pieces.length) (target position : Expression)
            (state between later : State κ σ) (index : Value),
          evaluate invoke context target state = .ended (.ok (.text text)) between →
          evaluate invoke context position between = .ended (.ok index) later →
          index.Stands whole →
          ∃ after, evaluate invoke context (.index target position) state =
            .ended (.ok (.text pieces[whole])) after) ∧
    ∀ whole, whole < 2 ^ 53 → (Value.number (Float.ofNat whole)).Stands whole := by
  refine ⟨?_, ?_, fun whole small => ⟨_, rfl, Number.value?_ofNat small⟩⟩
  · intro target position state between later value index length first second measured
    obtain ⟨after, ended⟩ := readAccess_element measured index
    refine ⟨_, after, (evaluate_index_of_ended first second).trans ended, ?_, ?_⟩
    · intro whole inside stands
      rw [(Access.position?_eq_some_iff index whole).mpr stands, Option.bind_some]
      cases found : later.store.element? value whole with
      | some element => rfl
      | none =>
          have := (Store.element?_eq_none_iff measured whole).mp found
          omega
    · intro outside
      cases found : Access.position? index with
      | none => rfl
      | some whole =>
          have stands := (Access.position?_eq_some_iff index whole).mp found
          have behind : length ≤ whole := Nat.le_of_not_lt fun inside =>
            outside whole inside stands
          rw [Option.bind_some, (Store.element?_eq_none_iff measured whole).mpr behind]
          rfl
  · intro text basic
    refine ⟨(Text.units text.toList).map fun unit => String.singleton (Text.ofUnit unit), ?_,
      List.length_map .., ?_⟩
    · rw [Text.join_units basic, Text.join_singletons, String.ofList_toList]
    · intro whole inside target position state between later index first second stands
      have measured : later.store.length? (.text text) = some _ := rfl
      obtain ⟨after, ended⟩ := readAccess_element measured index
      refine ⟨after, (evaluate_index_of_ended first second).trans (ended.trans ?_)⟩
      rw [List.length_map] at inside
      rw [(Access.position?_eq_some_iff index whole).mpr stands, Option.bind_some, Store.element?,
        List.getElem?_eq_getElem inside, List.getElem_map]
      rfl

theorem indexing_exact_pair :
    (∃ after, evaluate (fun _ _ => fail .nestedEvaluation) (⟨⟨0⟩, .empty⟩ : Context Unit)
      (.index (.literal (.text "a😀b")) (.literal (.text "0x1"))) tagged =
        .ended (.ok (.text "\uFFFD")) after) ∧
    ∃ pieces : List String, String.join pieces = "été" ∧ pieces.length = 3 := by
  have exact := indexing_exact (fun _ _ => fail .nestedEvaluation)
    (⟨⟨0⟩, .empty⟩ : Context Unit) (σ := Unit)
  have stands : (Value.text "0x1").Stands 1 :=
    ⟨Float.ofNat 1, by decide +kernel, Number.value?_ofNat (by norm_num)⟩
  obtain ⟨result, after, ended, inside, -⟩ :=
    exact.1 (.literal (.text "a😀b")) (.literal (.text "0x1")) tagged tagged tagged
      (.text "a😀b") (.text "0x1") 4 rfl rfl (by decide)
  have unit : tagged.store.element? (.text "a😀b") 1 = some (.text "\uFFFD") := by decide
  have same : result = .text "\uFFFD" :=
    Option.some.inj ((inside 1 (by decide) stands).symm.trans unit)
  obtain ⟨pieces, joined, length, -⟩ := exact.2.1 "été" (by simp)
  exact ⟨⟨after, same ▸ ended⟩, pieces, joined, length⟩

end Engine

end ReactiveView
