import SpeechStack.Tinyalsa.Mixer
import SpeechStack.Tinyalsa.State

set_option autoImplicit false

/-! # The values of a control

`mixer_ctl_set_value` reads all elements of a control, changes one and writes them back;
`mixer_ctl_set_enum_by_string` and `mixer_ctl_set_array` write without reading, and so put 0 into the
elements that they say nothing about. What the kernel keeps for a control is `Values`: its elements, in
the member of the union that belongs to its type. The results of the `ioctl`s are a parameter: any
number that is negative is an error.

Percentages are the part that does not come back: `int_to_percent` divides before it multiplies
(`percent_roundtrip`).
-/

namespace SpeechStack.Tinyalsa

open Wrap

/-- The elements of the controls, by `numid`; `tlv` is what TLV_READ and TLV_WRITE are about. -/
structure Values where
  elem : Nat → Nat → Int
  tlv : Nat → Nat → Int

inductive Request where
  | elemRead (numid : Nat)
  | elemWrite (numid : Nat)
  | tlvRead (numid : Nat)
  | tlvWrite (numid : Nat)
  deriving DecidableEq

/-- What `ioctl` returns. -/
abbrev Answers : Type := Request → Int

def Values.setElem (values : Values) (numid : Nat) (ev : Nat → Int) : Values :=
  { values with elem := Function.update values.elem numid ev }

@[simp] theorem Values.setElem_self (values : Values) (numid : Nat) (ev : Nat → Int) :
    (values.setElem numid ev).elem numid = ev := Function.update_self _ _ _

theorem Values.setElem_of_ne (values : Values) {numid numid' : Nat} (h : numid' ≠ numid)
    (ev : Nat → Int) : (values.setElem numid ev).elem numid' = values.elem numid' :=
  Function.update_of_ne h _ _

/-- SNDRV_CTL_IOCTL_ELEM_WRITE. -/
def elemWrite (answers : Answers) (values : Values) (numid : Nat) (ev : Nat → Int) : Int × Values :=
  let ret := answers (.elemWrite numid)
  (ret, if ret < 0 then values else values.setElem numid ev)

/-- What is stored in an element of a type for an `int`. -/
def storeElem (type : ElemType) (value : Int) : Option Int :=
  match type with
  | .boolean => some (if value = 0 then 0 else 1)
  | .integer => some value
  | .enumerated => some (uint value)
  | .bytes => some (value % 256)
  | _ => none

/-- The `int` that an element is read as. -/
def loadElem (type : ElemType) (x : Int) : Option Int :=
  match type with
  | .boolean => some (if x = 0 then 0 else 1)
  | .integer => some (int x)
  | .enumerated => some (int x)
  | .bytes => some x
  | _ => none

/-- `mixer_ctl_get_value(ctl, id)`. -/
def mixerCtlGetValue (answers : Answers) (values : Values) (ctl : Option ElemInfo) (id : Nat) : Int :=
  match ctl with
  | none => -EINVAL
  | some info =>
      if info.count ≤ id then -EINVAL
      else
        let ret := answers (.elemRead info.numid)
        if ret < 0 then ret else (loadElem info.type (values.elem info.numid id)).getD (-EINVAL)

/-- `mixer_ctl_set_value(ctl, id, value)`. -/
def mixerCtlSetValue (answers : Answers) (values : Values) (ctl : Option ElemInfo) (id : Nat)
    (value : Int) : Int × Values :=
  match ctl with
  | none => (-EINVAL, values)
  | some info =>
      if info.count ≤ id then (-EINVAL, values)
      else
        let ret := answers (.elemRead info.numid)
        if ret < 0 then (ret, values)
        else
          match storeElem info.type value with
          | none => (-EINVAL, values)
          | some x =>
              elemWrite answers values info.numid
                (Function.update (values.elem info.numid) id x)

/-! ## Percentages -/

/-- `percent_to_int(ei, percent)`. -/
def percentToInt (ei : ElemInfo) (percent : Int) : Int :=
  let percent := if percent > 100 then 100 else if percent < 0 then 0 else percent
  let range := int (ei.max - ei.min)
  int (ei.min + (int (range * percent)).tdiv 100)

/-- `int_to_percent(ei, value)`. -/
def intToPercent (ei : ElemInfo) (value : Int) : Int :=
  let range := int (ei.max - ei.min)
  if range = 0 then 0 else int ((value - ei.min).tdiv range * 100)

/-- `mixer_ctl_get_percent(ctl, id)`. -/
def mixerCtlGetPercent (answers : Answers) (values : Values) (ctl : Option ElemInfo) (id : Nat) : Int :=
  match ctl with
  | none => -EINVAL
  | some info =>
      if info.type ≠ .integer then -EINVAL
      else intToPercent info (mixerCtlGetValue answers values ctl id)

/-- `mixer_ctl_set_percent(ctl, id, percent)`. -/
def mixerCtlSetPercent (answers : Answers) (values : Values) (ctl : Option ElemInfo) (id : Nat)
    (percent : Int) : Int × Values :=
  match ctl with
  | none => (-EINVAL, values)
  | some info =>
      if info.type ≠ .integer then (-EINVAL, values)
      else mixerCtlSetValue answers values ctl id (percentToInt info percent)

/-- A range of `int`s whose length is an `int`. -/
structure ElemInfo.Ranged (info : ElemInfo) : Prop where
  lower : -2 ^ 31 ≤ info.min
  ordered : info.min ≤ info.max
  upper : info.max < 2 ^ 31
  span : info.max - info.min < 2 ^ 31

/-- The percentage as it is used. -/
def clampPercent (percent : Int) : Int := max 0 (min 100 percent)

theorem percentToInt_eq {info : ElemInfo} (h : info.Ranged)
    (hfits : (info.max - info.min) * 100 < 2 ^ 31) (percent : Int) :
    percentToInt info percent =
      info.min + (info.max - info.min) * clampPercent percent / 100 := by
  obtain ⟨hlower, hordered, hupper, hspan⟩ := h
  have hclamp : (if percent > 100 then 100 else if percent < 0 then 0 else percent) =
      clampPercent percent := by
    rw [clampPercent]
    split
    · omega
    · split <;> omega
  obtain ⟨p, hp, hp₀, hp₁⟩ : ∃ p, p = clampPercent percent ∧ 0 ≤ p ∧ p ≤ 100 :=
    ⟨_, rfl, by rw [clampPercent]; omega, by rw [clampPercent]; omega⟩
  obtain ⟨range, hrange⟩ : ∃ range, range = info.max - info.min := ⟨_, rfl⟩
  have hpos : 0 ≤ range * p := mul_nonneg (by omega) hp₀
  have hle : range * p ≤ range * 100 := mul_le_mul_of_nonneg_left hp₁ (by omega)
  have hdiv₀ : 0 ≤ range * p / 100 := Int.ediv_nonneg hpos (by omega)
  have hdiv₁ : range * p / 100 ≤ range := by omega
  rw [percentToInt]
  simp only [hclamp, ← hp, ← hrange]
  rw [int_eq (x := range) (by omega) (by omega), int_eq (x := range * p) (by omega) (by omega),
    Int.tdiv_eq_ediv_of_nonneg hpos, int_eq (by omega) (by omega)]

/-- What is read after a percentage has been set is 100 for the top of the range, and 0 for everything
below. -/
theorem intToPercent_percentToInt {info : ElemInfo} (h : info.Ranged)
    (hfits : (info.max - info.min) * 100 < 2 ^ 31) (percent : Int) :
    intToPercent info (percentToInt info percent) =
      if info.min < info.max ∧ 100 ≤ percent then 100 else 0 := by
  rw [percentToInt_eq h hfits]
  obtain ⟨hlower, hordered, hupper, hspan⟩ := h
  obtain ⟨range, hrange⟩ : ∃ range, range = info.max - info.min := ⟨_, rfl⟩
  obtain ⟨p, hp, hp₀, hp₁⟩ : ∃ p, p = clampPercent percent ∧ 0 ≤ p ∧ p ≤ 100 :=
    ⟨_, rfl, by rw [clampPercent]; omega, by rw [clampPercent]; omega⟩
  have htop : p = 100 ↔ 100 ≤ percent := by
    rw [hp, clampPercent]
    omega
  have hwrap : int range = range := int_eq (by omega) (by omega)
  rw [intToPercent, ← hrange, ← hp, add_sub_cancel_left]
  simp only [hwrap]
  by_cases hzero : range = 0
  · rw [if_pos hzero, if_neg (by omega)]
  · have hpos : 0 < range := by omega
    have hnonneg : 0 ≤ range * p / 100 := Int.ediv_nonneg (mul_nonneg hpos.le hp₀) (by omega)
    rw [if_neg hzero, Int.tdiv_eq_ediv_of_nonneg hnonneg]
    by_cases hfull : p = 100
    · rw [if_pos ⟨by omega, htop.mp hfull⟩, hfull, Int.mul_ediv_cancel _ (by decide),
        Int.ediv_self hzero]
      rfl
    · -- short of the top the quotient is 0
      have hlt : range * p < range * 100 := mul_lt_mul_of_pos_left (by omega) hpos
      have hquot : range * p / 100 / range = 0 := Int.ediv_eq_zero_of_lt hnonneg (by omega)
      rw [if_neg fun hboth => hfull (htop.mpr hboth.2), hquot]
      rfl

theorem percentToInt_bounds {info : ElemInfo} (h : info.Ranged)
    (hfits : (info.max - info.min) * 100 < 2 ^ 31) (percent : Int) :
    info.min ≤ percentToInt info percent ∧ percentToInt info percent ≤ info.max := by
  rw [percentToInt_eq h hfits]
  have hp₀ : 0 ≤ clampPercent percent := by rw [clampPercent]; omega
  have hp₁ : clampPercent percent ≤ 100 := by rw [clampPercent]; omega
  have hrange : 0 ≤ info.max - info.min := by have := h.ordered; omega
  have hnonneg := mul_nonneg hrange hp₀
  have hle := mul_le_mul_of_nonneg_left hp₁ hrange
  omega

/-- A product that overflows to less than -99 puts the element outside the range. -/
theorem percentToInt_outside {info : ElemInfo} (h : info.Ranged) {p : Int} (hp₀ : 0 ≤ p)
    (hp₁ : p ≤ 100) (hneg : int ((info.max - info.min) * p) ≤ -100) :
    percentToInt info p ∉ Set.Icc info.min info.max := by
  obtain ⟨hlower, hordered, hupper, hspan⟩ := h
  obtain ⟨n, hn⟩ : ∃ n, int ((info.max - info.min) * p) = -n := ⟨_, (neg_neg _).symm⟩
  have hbound := (int_bounds ((info.max - info.min) * p)).1
  have hdiv : (-n).tdiv 100 = -(n / 100) := by
    rw [Int.neg_tdiv, Int.tdiv_eq_ediv_of_nonneg (by omega)]
  have hrange : int (info.max - info.min) = info.max - info.min := int_eq (by omega) hspan
  rw [percentToInt]
  simp only [if_neg (show ¬ p > 100 by omega), if_neg (show ¬ p < 0 by omega), hrange, hn, hdiv]
  rintro ⟨hmin, hmax⟩
  -- the sum is below the range, or is carried around to above it
  by_cases hwrap : info.min + -(n / 100) < -2 ^ 31
  · rw [← int_add_mul_pow _ 1, int_eq (by omega) (by omega)] at hmax
    omega
  · rw [int_eq (by omega) (by omega)] at hmin
    omega

/-- When the product with 100 overflows, some percentage lands outside the range. -/
theorem exists_percentToInt_outside {info : ElemInfo} (h : info.Ranged)
    (hover : 2 ^ 31 ≤ (info.max - info.min) * 100) :
    ∃ percent, percentToInt info percent ∉ Set.Icc info.min info.max := by
  obtain ⟨range, hrange⟩ : ∃ range, range = info.max - info.min := ⟨_, rfl⟩
  have hspan := h.span
  have hpos : 0 < range := by omega
  -- the first percentage whose product is not an `int`
  obtain ⟨q, hq⟩ : ∃ q, q = (2 ^ 31 - 1) / range := ⟨_, rfl⟩
  have hbelow : range * q ≤ 2 ^ 31 - 1 := hq ▸ Int.mul_ediv_self_le hpos.ne'
  have habove : 2 ^ 31 - 1 < range * q + range := hq ▸ Int.lt_mul_ediv_self_add hpos
  have hq₀ : 0 ≤ q := hq ▸ Int.ediv_nonneg (by decide) hpos.le
  have hq₁ : q < 100 := hq ▸ Int.ediv_lt_of_lt_mul hpos (by omega)
  have hproduct : range * (q + 1) = range * q + range := by rw [Int.mul_add, Int.mul_one]
  by_cases hfar : range * q + range ≤ 2 ^ 32 - 100
  · refine ⟨q + 1, percentToInt_outside h (by omega) (by omega) ?_⟩
    rw [← hrange, hproduct, ← int_add_mul_pow _ (-1), int_eq (by omega) (by omega)]
    omega
  · -- a range of nearly 2³¹: its hundredfold is just below a multiple of 2³²
    obtain ⟨e, he⟩ : ∃ e, e = 2 ^ 31 - range := ⟨_, rfl⟩
    have hhundred : int (range * 100) = -(100 * e) := calc
      int (range * 100) = int (-(100 * e) + 2 ^ 32 * 50) := by
        congr 1
        omega
      _ = int (-(100 * e)) := int_add_mul_pow _ 50
      _ = -(100 * e) := int_eq (by omega) (by omega)
    refine ⟨100, percentToInt_outside h (by decide) le_rfl ?_⟩
    rw [← hrange, hhundred]
    omega

/-- Setting an element that the control has. -/
theorem mixerCtlSetValue_eq {answers : Answers} {values : Values} {info : ElemInfo} {id : Nat}
    {value x : Int} (hid : id < info.count) (hread : 0 ≤ answers (.elemRead info.numid))
    (hwrite : answers (.elemWrite info.numid) = 0) (hstore : storeElem info.type value = some x) :
    mixerCtlSetValue answers values (some info) id value =
      (0, values.setElem info.numid (Function.update (values.elem info.numid) id x)) := by
  rw [mixerCtlSetValue]
  dsimp only
  rw [if_neg (by omega), if_neg (by omega), hstore]
  dsimp only [elemWrite]
  rw [hwrite, if_neg (by omega)]

/-- What is set for a percentage is what is read, and no other element is touched. -/
theorem mixerCtlSetPercent_eq {answers : Answers} {info : ElemInfo} (htype : info.type = .integer)
    (hread : 0 ≤ answers (.elemRead info.numid)) (hwrite : answers (.elemWrite info.numid) = 0)
    {id : Nat} (hid : id < info.count) (values : Values) (percent : Int) :
    ∃ values', mixerCtlSetPercent answers values (some info) id percent = (0, values') ∧
      (∀ numid k, numid ≠ info.numid ∨ k ≠ id → values'.elem numid k = values.elem numid k) ∧
      mixerCtlGetValue answers values' (some info) id = percentToInt info percent := by
  obtain ⟨value, hvalue⟩ : ∃ value, value = percentToInt info percent := ⟨_, rfl⟩
  have hstore : storeElem info.type value = some value := by rw [htype]; rfl
  refine ⟨values.setElem info.numid (Function.update (values.elem info.numid) id value), ?_, ?_, ?_⟩
  · rw [mixerCtlSetPercent, if_neg (not_not.mpr htype), ← hvalue]
    exact mixerCtlSetValue_eq hid hread hwrite hstore
  · intro numid k hne
    by_cases hnumid : numid = info.numid
    · rw [hnumid, Values.setElem_self, Function.update_of_ne (hne.resolve_left (not_not.mpr hnumid))]
    · rw [Values.setElem_of_ne _ hnumid]
  · rw [mixerCtlGetValue]
    dsimp only
    rw [if_neg (by omega), if_neg (by omega), Values.setElem_self, Function.update_self, htype,
      hvalue, percentToInt]
    exact int_int _

/-- **Percentages.** Every percentage can be set, and touches no other element. All of them land
inside the range of the control if and only if the product with 100 is an `int`; then one comes back
from `mixer_ctl_get_percent` exactly when it is at an end of the range. -/
theorem percent_roundtrip (answers : Answers) {info : ElemInfo} (h : info.Ranged)
    (htype : info.type = .integer) (hread : 0 ≤ answers (.elemRead info.numid))
    (hwrite : answers (.elemWrite info.numid) = 0) {id : Nat} (hid : id < info.count)
    (values : Values) :
    (∀ percent, ∃ values',
      mixerCtlSetPercent answers values (some info) id percent = (0, values') ∧
      (∀ numid k, numid ≠ info.numid ∨ k ≠ id → values'.elem numid k = values.elem numid k) ∧
      ((info.max - info.min) * 100 < 2 ^ 31 →
        (mixerCtlGetPercent answers values' (some info) id = clampPercent percent ↔
          percent ≤ 0 ∨ info.min < info.max ∧ 100 ≤ percent))) ∧
    ((∀ percent values',
        mixerCtlSetPercent answers values (some info) id percent = (0, values') →
        mixerCtlGetValue answers values' (some info) id ∈ Set.Icc info.min info.max) ↔
      (info.max - info.min) * 100 < 2 ^ 31) := by
  have hset := mixerCtlSetPercent_eq htype hread hwrite hid values
  refine ⟨fun percent => ?_, fun hall => ?_, fun hfits percent values' heq => ?_⟩
  · obtain ⟨values', heq, hother, hget⟩ := hset percent
    refine ⟨values', heq, hother, fun hfits => ?_⟩
    rw [mixerCtlGetPercent, hget, if_neg (not_not.mpr htype), intToPercent_percentToInt h hfits,
      clampPercent]
    split <;> omega
  · by_contra hover
    obtain ⟨percent, hout⟩ := exists_percentToInt_outside h (not_lt.mp hover)
    obtain ⟨values', heq, -, hget⟩ := hset percent
    exact hout (hget ▸ hall percent values' heq)
  · obtain ⟨values'', heq', -, hget⟩ := hset percent
    obtain rfl : values'' = values' := (Prod.mk.inj (heq'.symm.trans heq)).2
    rw [hget]
    exact percentToInt_bounds h hfits percent

theorem percent_roundtrip_volume :
    ∃ values', mixerCtlSetPercent (fun _ => 0) ⟨fun _ _ => 7, fun _ _ => 0⟩
        (some ⟨3, "Volume", .integer, 2, 0, 255, 0, false⟩) 0 60 = (0, values') ∧
      values'.elem 3 0 = 153 ∧ values'.elem 3 1 = 7 ∧
      mixerCtlGetPercent (fun _ => 0) values' (some ⟨3, "Volume", .integer, 2, 0, 255, 0, false⟩) 0
        ≠ 60 := by
  have hranged : ElemInfo.Ranged ⟨3, "Volume", .integer, 2, 0, 255, 0, false⟩ :=
    ⟨by decide, by decide, by decide, by decide⟩
  have hid : 0 < 2 := by decide
  obtain ⟨values', hset, hother, hiff⟩ := (percent_roundtrip (fun _ => 0) hranged rfl
    le_rfl rfl hid ⟨fun _ _ => 7, fun _ _ => 0⟩).1 60
  refine ⟨values', hset, ?_, hother 3 1 (.inr (by decide)), fun h => ?_⟩
  · rw [← (Prod.mk.inj hset).2]
    rfl
  · have := (hiff (by decide)).mp h
    omega

/-! ## Enumerated controls -/

/-- The loop of `mixer_ctl_set_enum_by_string`, from the item `i` on. -/
def enumIndex (string : String) : List String → Nat → Option Nat
  | [], _ => none
  | name :: names, i => if string = name then some i else enumIndex string names (i + 1)

/-- `mixer_ctl_set_enum_by_string(ctl, string)`; the names are there for all items. -/
def mixerCtlSetEnumByString (answers : Answers) (values : Values) (ctl : Option MixerCtl)
    (string : String) : Int × Values :=
  match ctl with
  | none => (-EINVAL, values)
  | some ctl =>
      match ctl.info, ctl.ename with
      | some info, some names =>
          if info.type ≠ .enumerated then (-EINVAL, values)
          else
            match enumIndex string (names.take info.items) 0 with
            | none => (-EINVAL, values)
            | some i =>
                let (ret, values) :=
                  elemWrite answers values info.numid fun k => if k = 0 then i else 0
                (if ret < 0 then ret else 0, values)
      | _, _ => (-EINVAL, values)

/-- `mixer_ctl_get_enum_string(ctl, enum_id)`. -/
def mixerCtlGetEnumString (ctl : Option MixerCtl) (enumId : Nat) : Option String :=
  match ctl with
  | none => none
  | some ctl =>
      match ctl.info, ctl.ename with
      | some info, some names =>
          if info.type ≠ .enumerated ∨ info.items ≤ enumId then none else names[enumId]?
      | _, _ => none

theorem enumIndex_eq_some {string : String} {names : List String} {i j : Nat}
    (h : enumIndex string names i = some j) : i ≤ j ∧ names[j - i]? = some string := by
  induction names generalizing i with
  | nil => cases h
  | cons name names ih =>
      rw [enumIndex] at h
      split at h
      · rename_i heq
        obtain rfl := Option.some.inj h
        rw [Nat.sub_self, heq]
        exact ⟨le_rfl, rfl⟩
      · obtain ⟨hle, hget⟩ := ih h
        refine ⟨by omega, ?_⟩
        rw [show j - i = (j - (i + 1)) + 1 by omega, List.getElem?_cons_succ, hget]

theorem enumIndex_eq_none {string : String} {names : List String} {i : Nat} :
    enumIndex string names i = none ↔ string ∉ names := by
  induction names generalizing i with
  | nil => simp [enumIndex]
  | cons name names ih =>
      rw [enumIndex, List.mem_cons, not_or]
      split
      · simp [*]
      · rw [ih]
        simp [*]

/-- The names of a control as `mixer_open` leaves it. -/
theorem MixerCtl.Describes.names {card : Card} {ctl : MixerCtl} {info : ElemInfo} {numid : Nat}
    (h : ctl.Describes card numid) (hinfo : ctl.info = some info) (htype : info.type = .enumerated) :
    ∃ names, ctl.ename = some names ∧ names.length = info.items ∧
      ∀ string, string ∈ names ↔ ∃ m, m < info.items ∧ card.itemName numid m = some string := by
  obtain ⟨info', -, hinfo', hname⟩ := h
  obtain rfl := Option.some.inj (hinfo.symm.trans hinfo')
  cases hename : ctl.ename with
  | none =>
      rw [hename] at hname
      exact absurd htype hname
  | some names =>
      rw [hename] at hname
      obtain ⟨-, hmap⟩ := hname
      refine ⟨names, rfl, ?_, fun string => ?_⟩
      · simpa using congrArg List.length hmap
      · calc string ∈ names ↔ some string ∈ names.map some := by simp
          _ ↔ ∃ m, m < info.items ∧ card.itemName numid m = some string := by
            rw [hmap, List.mem_map]
            simp [List.mem_range]

/-- **Names.** On a control as `mixer_open` leaves it, a string is taken if and only if it names an item
and the kernel takes the write. The item that can be read then has that name; every other element of
the control is 0, whatever it was. -/
theorem setEnumByString_spec {card : Card} {ctl : MixerCtl} {info : ElemInfo} {numid : Nat}
    (hctl : ctl.Describes card numid) (hinfo : ctl.info = some info) (htype : info.type = .enumerated)
    (hitems : info.items < 2 ^ 31) (answers : Answers)
    (hread : 0 ≤ answers (.elemRead info.numid)) (values : Values) (string : String) :
    ((mixerCtlSetEnumByString answers values (some ctl) string).1 = 0 ↔
        (∃ m, m < info.items ∧ card.itemName numid m = some string) ∧
          0 ≤ answers (.elemWrite info.numid)) ∧
    ((mixerCtlSetEnumByString answers values (some ctl) string).1 ≠ 0 →
      (mixerCtlSetEnumByString answers values (some ctl) string).2 = values) ∧
    ∀ values', mixerCtlSetEnumByString answers values (some ctl) string = (0, values') →
      (0 < info.count → ∃ i : Nat, mixerCtlGetValue answers values' (some info) 0 = i ∧
        mixerCtlGetEnumString (some ctl) i = some string) ∧
      ∀ id, 0 < id → id < info.count → mixerCtlGetValue answers values' (some info) id = 0 := by
  obtain ⟨names, hnames, hlength, hmem⟩ := hctl.names hinfo htype
  have htake : names.take info.items = names := by rw [← hlength, List.take_length]
  rw [← hmem, mixerCtlSetEnumByString]
  simp only [hinfo, hnames, htake, htype, ne_eq, not_true_eq_false, if_false]
  cases hindex : enumIndex string names 0 with
  | none =>
      have hnot := enumIndex_eq_none.mp hindex
      have herror : -(EINVAL : Int) ≠ 0 := by decide
      refine ⟨⟨fun h => absurd h herror, fun h => absurd h.1 hnot⟩, fun _ => rfl, ?_⟩
      intro values' h
      cases (Prod.mk.inj h).1
  | some i =>
      obtain ⟨-, hget⟩ := enumIndex_eq_some hindex
      have hin : string ∈ names := List.mem_of_getElem? hget
      have hi : i < info.items := by
        rw [← hlength]
        exact (List.getElem?_eq_some_iff.mp hget).1
      dsimp only [elemWrite]
      by_cases hwrite : answers (.elemWrite info.numid) < 0
      · simp only [if_pos hwrite]
        refine ⟨⟨fun h => by omega, fun h => by omega⟩, fun _ => trivial, fun values' h => ?_⟩
        have := (Prod.mk.inj h).1
        omega
      · simp only [if_neg hwrite]
        refine ⟨⟨fun _ => ⟨hin, by omega⟩, fun _ => if_neg hwrite⟩,
          fun h => absurd (if_neg hwrite) h, ?_⟩
        intro values' h
        obtain rfl := (Prod.mk.inj h).2
        have hload : ∀ id, id < info.count → mixerCtlGetValue answers
            (values.setElem info.numid fun k => if k = 0 then (i : Int) else 0) (some info) id =
              if id = 0 then (i : Int) else 0 := by
          intro id hid
          rw [mixerCtlGetValue]
          dsimp only
          rw [if_neg (by omega), if_neg (by omega), Values.setElem_self, htype]
          dsimp only [loadElem, Option.getD]
          split
          · exact int_eq (by omega) (by omega)
          · rfl
        refine ⟨fun hcount => ⟨i, ?_, ?_⟩, fun id hpos hid => ?_⟩
        · rw [hload 0 hcount, if_pos rfl]
        · rw [mixerCtlGetEnumString]
          simp only [hinfo, hnames]
          rw [if_neg (by simp only [htype, ne_eq, not_true_eq_false, false_or]; omega)]
          simpa using hget
        · rw [hload id hid, if_neg (by omega)]

/-- The control "Source" has two channels: choosing for the first one resets the second. -/
theorem setEnumByString_spec_scarceCard :
    ∃ ctl info values', ctl.Describes (scarceCard .mixer) 2 ∧ ctl.info = some info ∧
      mixerCtlSetEnumByString (fun _ => 0) ⟨fun _ _ => 1, fun _ _ => 0⟩ (some ctl) "Mic" =
        (0, values') ∧
      mixerCtlGetValue (fun _ => 0) ⟨fun _ _ => 1, fun _ _ => 0⟩ (some info) 1 = 1 ∧
      mixerCtlGetValue (fun _ => 0) values' (some info) 1 = 0 := by
  have hctl : MixerCtl.Describes (scarceCard .mixer) 2
      ⟨some ⟨2, "Source", .enumerated, 2, 0, 0, 2, false⟩, some ["Line", "Mic"]⟩ :=
    ⟨_, rfl, rfl, rfl, rfl⟩
  obtain ⟨hiff, -, hspec⟩ := setEnumByString_spec hctl rfl rfl (by decide) (fun _ => 0) le_rfl
    ⟨fun _ _ => 1, fun _ _ => 0⟩ "Mic"
  have hzero := hiff.mpr ⟨⟨1, by decide, rfl⟩, le_rfl⟩
  refine ⟨_, _, _, hctl, rfl, Prod.ext hzero rfl, by decide, ?_⟩
  exact (hspec _ (Prod.ext hzero rfl)).2 1 (by decide) (by decide)

/-! ## Arrays -/

/-- `array[0]`, … of an array of `count` elements that is read. -/
def readArray (ev : Nat → Int) (count : Nat) : List Int := (List.range count).map ev

/-- The elements behind the copy of an array into a value of zeros. -/
def writeArray (array : List Int) (k : Nat) : Int := array.getD k 0

/-- `mixer_ctl_get_array(ctl, array, count)`: what it returns, and the array when it has been
written; `memory` says whether there is memory for a TLV. -/
def mixerCtlGetArray (answers : Answers) (memory : Bool) (values : Values) (ctl : Option ElemInfo)
    (count : Nat) : Int × Option (List Int) :=
  match ctl with
  | none => (-EINVAL, none)
  | some info =>
      if info.count < count ∨ count = 0 then (-EINVAL, none)
      else
        let read : Int × Option (List Int) :=
          let ret := answers (.elemRead info.numid)
          if ret < 0 then (ret, none) else (0, some (readArray (values.elem info.numid) count))
        match info.type with
        | .boolean => read
        | .integer => read
        | .bytes =>
            if info.tlv then
              if !memory then (-ENOMEM, none)
              else
                let ret := answers (.tlvRead info.numid)
                (ret, some (readArray (if ret < 0 then fun _ => 0 else values.tlv info.numid) count))
            else read
        -- the value has only been cleared
        | .iec958 => (0, some (readArray (fun _ => 0) count))
        | _ => (-EINVAL, none)

/-- `mixer_ctl_set_array(ctl, array, count)`. -/
def mixerCtlSetArray (answers : Answers) (memory : Bool) (values : Values) (ctl : Option ElemInfo)
    (array : List Int) : Int × Values :=
  match ctl with
  | none => (-EINVAL, values)
  | some info =>
      if info.count < array.length ∨ array.length = 0 then (-EINVAL, values)
      else
        let write := elemWrite answers values info.numid (writeArray array)
        match info.type with
        | .boolean => write
        | .integer => write
        | .bytes =>
            if info.tlv then
              if !memory then (-ENOMEM, values)
              else
                let ret := answers (.tlvWrite info.numid)
                (ret, if ret < 0 then values
                  else { values with tlv := Function.update values.tlv info.numid (writeArray array) })
            else write
        | .iec958 => write
        | _ => (-EINVAL, values)

theorem readArray_writeArray (array : List Int) :
    readArray (writeArray array) array.length = array := by
  refine List.ext_getElem (by simp [readArray]) fun k hk₁ hk₂ => ?_
  simp [readArray, writeArray, List.getD_eq_getElem?_getD, List.getElem?_eq_getElem hk₂]

/-- The types that the two functions take. -/
def ElemInfo.HasArray (info : ElemInfo) : Prop :=
  info.type = .boolean ∨ info.type = .integer ∨ info.type = .bytes ∨ info.type = .iec958

/-- **Arrays.** An array that has been written comes back, except from an IEC958 control: that one is
never read, and zeros come back. -/
theorem array_roundtrip_iff {info : ElemInfo} (hinfo : info.HasArray) {array : List Int}
    (hpos : 0 < array.length) (hcount : array.length ≤ info.count) (values : Values) :
    ∃ values', mixerCtlSetArray (fun _ => 0) true values (some info) array = (0, values') ∧
      (mixerCtlGetArray (fun _ => 0) true values' (some info) array.length = (0, some array) ↔
        info.type ≠ .iec958 ∨ ∀ x ∈ array, x = 0) := by
  have hguard : ¬ (info.count < array.length ∨ array.length = 0) := by omega
  have hback := readArray_writeArray array
  simp only [mixerCtlSetArray, mixerCtlGetArray, if_neg hguard, elemWrite, lt_irrefl, if_false,
    Bool.not_true, Bool.false_eq_true]
  rcases hinfo with htype | htype | htype | htype
  · simp [htype, hback]
  · simp [htype, hback]
  · cases htlv : info.tlv <;> simp [htype, hback]
  · simp only [htype, Prod.mk.injEq, true_and, Option.some.injEq, ne_eq, not_true_eq_false, false_or,
      exists_eq_left']
    rw [readArray, List.map_const', List.length_range, eq_comm, List.eq_replicate_iff]
    simp

theorem array_roundtrip_iff_status :
    ∃ values', mixerCtlSetArray (fun _ => 0) true ⟨fun _ _ => 0, fun _ _ => 0⟩
        (some ⟨4, "IEC958 Playback", .iec958, 1, 0, 0, 0, false⟩) [130] = (0, values') ∧
      mixerCtlGetArray (fun _ => 0) true values'
        (some ⟨4, "IEC958 Playback", .iec958, 1, 0, 0, 0, false⟩) 1 ≠ (0, some [130]) := by
  have hinfo : ElemInfo.HasArray ⟨4, "IEC958 Playback", .iec958, 1, 0, 0, 0, false⟩ :=
    .inr (.inr (.inr rfl))
  have hpos : 0 < [(130 : Int)].length := by decide
  obtain ⟨values', hset, hiff⟩ := array_roundtrip_iff hinfo hpos le_rfl ⟨fun _ _ => 0, fun _ _ => 0⟩
  refine ⟨values', hset, fun h => ?_⟩
  have := hiff.mp h
  simp at this

end SpeechStack.Tinyalsa
