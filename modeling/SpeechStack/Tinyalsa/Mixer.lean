import SpeechStack.Lib.Ledger

set_option autoImplicit false

/-! # `mixer_open` and `mixer_close`

The mixer reads the controls of a card into blocks of its own, one for each name of an enumerated
control, and gives all of them back in one place, `mixer_close`, which is also where `mixer_open` goes
when it fails halfway. What the kernel answers and which allocations succeed is a `Card`; the ledger
of a call says what it has taken and returned.

`mixer->fd` is assigned late. Until then it is 0 from `calloc`, so that a failure in between closes
the descriptor 0, and leaves the one of the card open (`mixerOpen_settles`).
-/

namespace SpeechStack.Tinyalsa

open Ledger

/-- `SNDRV_CTL_ELEM_TYPE_*`. -/
inductive ElemType where
  | none
  | boolean
  | integer
  | enumerated
  | bytes
  | iec958
  | integer64
  deriving DecidableEq

/-- `struct snd_ctl_elem_info`; `tlv` is the bit SNDRV_CTL_ELEM_ACCESS_TLV_READWRITE. -/
structure ElemInfo where
  numid : Nat
  name : String
  type : ElemType
  count : Nat
  min : Int
  max : Int
  items : Nat
  tlv : Bool
  deriving DecidableEq

/-- `struct mixer_ctl`; of the array `ename` the entries that have been set, from the first one on. -/
structure MixerCtl where
  info : Option ElemInfo
  ename : Option (List String)
  deriving DecidableEq

/-- `struct mixer`; the two arrays are pointers. -/
structure Mixer where
  fd : Nat
  cardInfo : Option String
  elemInfo : Option (Nat → ElemInfo)
  ctl : Option (Nat → MixerCtl)
  count : Nat

/-- The blocks on the heap. -/
inductive Block where
  | mixer
  | ctl
  | elemInfo
  | eid
  | enames (n : Nat)
  | ename (n m : Nat)
  deriving DecidableEq

inductive Resource where
  | fd (fd : Nat)
  | block (b : Block)
  deriving DecidableEq

/-- What `mixer_open` meets: the descriptor, which allocations succeed, and what the `ioctl`s
answer. -/
structure Card where
  openFd : Option Nat
  alloc : Block → Bool
  elemCount : Option Nat
  cardInfo : Option String
  elemIds : Option (Nat → Nat)
  elemInfo : Nat → Option ElemInfo
  itemName : Nat → Nat → Option String

/-! ## `mixer_close` -/

/-- What the loop of `mixer_close` frees for the control `n`. -/
def freeEnames (n : Nat) (ctl : MixerCtl) : List Resource :=
  match ctl.ename with
  | none => []
  | some names =>
      let max := match ctl.info with
        | none => 0
        | some info => info.items
      ((List.range max).filter fun m => m < names.length).map (fun m => .block (.ename n m)) ++
        [.block (.enames n)]

/-- What `mixer_close` gives back, in its order. -/
def closeOrder (mixer : Mixer) : List Resource :=
  [.fd mixer.fd] ++
    (match mixer.ctl with
      | none => []
      | some ctl => (List.range mixer.count).flatMap (fun n => freeEnames n (ctl n)) ++
          [.block .ctl]) ++
    (match mixer.elemInfo with
      | none => []
      | some _ => [.block .elemInfo]) ++
    [.block .mixer]

/-- `mixer_close(mixer)`; a descriptor is never negative here. -/
def mixerClose (mixer : Mixer) : List (Op Resource) := (closeOrder mixer).map .release

/-! ## `mixer_open` -/

/-- The locals of `mixer_open` once there is a mixer, and the ledger so far. -/
structure Opening where
  mixer : Mixer
  eid : Bool
  log : List (Op Resource)

def Opening.got (s : Opening) (b : Block) : Opening :=
  { s with log := s.log ++ [.acquire (.block b)] }

/-- An allocation: the state behind it when it succeeds. -/
def Opening.calloc (card : Card) (s : Opening) (b : Block) : Option Opening :=
  if card.alloc b then some (s.got b) else none

/-- `mixer->ctl[n] = …`. -/
def Opening.setCtl (s : Opening) (n : Nat) (f : MixerCtl → MixerCtl) : Opening :=
  { s with mixer := { s.mixer with
      ctl := s.mixer.ctl.map fun ctl => Function.update ctl n (f (ctl n)) } }

/-- The inner loop, from the item `m` on: whether it gets to the end, and what it leaves. -/
def openItems (card : Card) (n numid : Nat) : Nat → Nat → Opening → Bool × Opening
  | 0, _, s => (true, s)
  | left + 1, m, s =>
      match card.itemName numid m with
      | none => (false, s)
      | some name =>
          match s.calloc card (.ename n m) with
          | none => (false, s)
          | some s =>
              openItems card n numid left (m + 1)
                (s.setCtl n fun ctl => { ctl with ename := ctl.ename.map (· ++ [name]) })

/-- The body of the outer loop. -/
def openElem (card : Card) (eid : Nat → Nat) (n : Nat) (s : Opening) : Bool × Opening :=
  match card.elemInfo (eid n) with
  | none => (false, s)
  | some ei =>
      let s := { s with mixer := { s.mixer with
        elemInfo := s.mixer.elemInfo.map fun infos => Function.update infos n ei } }
      let s := s.setCtl n fun ctl => { ctl with info := some ei }
      if ei.type = .enumerated then
        match s.calloc card (.enames n) with
        | none => (false, s)
        | some s =>
            let s := s.setCtl n fun ctl => { ctl with ename := some [] }
            openItems card n (eid n) ei.items 0 s
      else (true, s)

/-- The outer loop, from the control `n` on. -/
def openElems (card : Card) (eid : Nat → Nat) : Nat → Nat → Opening → Bool × Opening
  | 0, _, s => (true, s)
  | left + 1, n, s =>
      match openElem card eid n s with
      | (true, s) => openElems card eid left (n + 1) s
      | (false, s) => (false, s)

def noInfo : ElemInfo := ⟨0, "", .none, 0, 0, 0, 0, false⟩

/-- `mixer->ctl = calloc(…)`. -/
def openCtl (card : Card) (s : Opening) : Opening :=
  match s.calloc card .ctl with
  | none => s
  | some s => { s with mixer := { s.mixer with ctl := some fun _ => ⟨none, none⟩ } }

/-- `mixer->elem_info = calloc(…)`. -/
def openInfos (card : Card) (s : Opening) : Opening :=
  match s.calloc card .elemInfo with
  | none => s
  | some s => { s with mixer := { s.mixer with elemInfo := some fun _ => noInfo } }

/-- What comes behind `mixer = calloc(…)`. -/
def openMixer (card : Card) (fd count : Nat) (s : Opening) : Bool × Opening :=
  let s := openInfos card (openCtl card s)
  if s.mixer.ctl.isNone || s.mixer.elemInfo.isNone then (false, s)
  else
    match card.cardInfo with
    | none => (false, s)
    | some name =>
        let s := { s with mixer := { s.mixer with cardInfo := some name } }
        match s.calloc card .eid with
        | none => (false, s)
        | some s =>
            let s := { s with eid := true, mixer := { s.mixer with count := count, fd := fd } }
            match card.elemIds with
            | none => (false, s)
            | some eid => openElems card eid count 0 s

/-- `mixer_open(card)`: the mixer, and the ledger of the call. -/
def mixerOpen (card : Card) : Option Mixer × List (Op Resource) :=
  match card.openFd with
  | none => (none, [])
  | some fd =>
      let log := [.acquire (.fd fd)]
      match card.elemCount with
      | none => (none, log ++ [.release (.fd fd)])
      | some count =>
          if !card.alloc .mixer then (none, log ++ [.release (.fd fd)])
          else
            let mixer : Mixer := ⟨0, none, none, none, 0⟩
            match openMixer card fd count ⟨mixer, false, log ++ [.acquire (.block .mixer)]⟩ with
            | (true, s) => (some s.mixer, s.log ++ [.release (.block .eid)])
            | (false, s) =>
                (none, s.log ++ (if s.eid then [.release (.block .eid)] else []) ++
                  mixerClose s.mixer)

/-! ## What is held on the way -/

/-- The blocks of the control `n`. -/
def enameBlocks (n : Nat) (ctl : MixerCtl) : Multiset Resource :=
  match ctl.ename with
  | none => 0
  | some names =>
      ((List.range names.length).map (fun m => Resource.block (.ename n m)) : Multiset Resource) +
        {.block (.enames n)}

/-- The blocks of a mixer. -/
def Mixer.blocks (mixer : Mixer) : Multiset Resource :=
  (match mixer.ctl with
    | none => 0
    | some ctl => (Multiset.range mixer.count).bind (fun n => enameBlocks n (ctl n)) +
        {.block .ctl}) +
  (match mixer.elemInfo with
    | none => 0
    | some _ => {.block .elemInfo}) +
  {.block .mixer}

/-- No more names than items, so that the loop of `mixer_close` finds them all. -/
def MixerCtl.Counted (ctl : MixerCtl) : Prop :=
  ∀ names, ctl.ename = some names → ∃ info, ctl.info = some info ∧ names.length ≤ info.items

def Mixer.Counted (mixer : Mixer) : Prop :=
  ∀ ctl, mixer.ctl = some ctl → ∀ n, (ctl n).Counted

theorem filter_range {k n : Nat} (h : k ≤ n) :
    ((List.range n).filter fun m => m < k) = List.range k := by
  induction n with
  | zero =>
      obtain rfl : k = 0 := by omega
      rfl
  | succ n ih =>
      rw [List.range_succ, List.filter_append]
      rcases Nat.le_succ_iff.mp h with hle | rfl
      · rw [ih hle, List.filter_singleton, decide_eq_false (by omega)]
        simp
      · have hall : (List.range n).filter (fun m => m < n + 1) = List.range n :=
          List.filter_eq_self.mpr fun m hm => decide_eq_true (by have := List.mem_range.mp hm; omega)
        rw [hall, List.filter_singleton, decide_eq_true (by omega)]
        rw [List.range_succ]
        rfl

theorem freeEnames_eq (n : Nat) {ctl : MixerCtl} (h : ctl.Counted) :
    (freeEnames n ctl : Multiset Resource) = enameBlocks n ctl := by
  cases hname : ctl.ename with
  | none => simp [freeEnames, enameBlocks, hname]
  | some names =>
      obtain ⟨info, hinfo, hle⟩ := h names hname
      rw [freeEnames, enameBlocks]
      simp only [hname, hinfo]
      rw [filter_range hle, ← Multiset.coe_add]
      rfl

/-- What `mixer_close` gives back is what the mixer holds, and its descriptor. -/
theorem closeOrder_eq {mixer : Mixer} (h : mixer.Counted) :
    (closeOrder mixer : Multiset Resource) = {.fd mixer.fd} + mixer.blocks := by
  rw [closeOrder, Mixer.blocks]
  simp only [← Multiset.coe_add, add_assoc]
  congr 1
  congr 1
  · cases hctl : mixer.ctl with
    | none => rfl
    | some ctl =>
        simp only [← Multiset.coe_add]
        congr 1
        rw [← Multiset.coe_bind, Multiset.coe_range]
        exact Multiset.bind_congr fun n _ => freeEnames_eq n (h ctl hctl n)
  · congr 1
    cases mixer.elemInfo <;> rfl

theorem settle_mixerClose {mixer : Mixer} (h : mixer.Counted) (rest : Multiset Resource) :
    settle (mixerClose mixer) ({.fd mixer.fd} + mixer.blocks + rest) = some rest := by
  rw [← closeOrder_eq h, mixerClose]
  exact settle_releases _ _

/-! ## The loops of `mixer_open` -/

/-- The invariant: behind a process that holds the descriptor 0, the ledger is that of the blocks of
the mixer, `eid` and the card. -/
structure Opening.Owns (fd : Nat) (s : Opening) : Prop where
  ledger : settle s.log {.fd 0} =
    some (s.mixer.blocks + (if s.eid then {.block .eid} else 0) + {.fd fd, .fd 0})
  counted : s.mixer.Counted

/-- What the loops leave alone, with the controls from `n` on. -/
structure Opening.Beyond (n : Nat) (s s' : Opening) : Prop where
  eid : s'.eid = s.eid
  fd : s'.mixer.fd = s.mixer.fd
  count : s'.mixer.count = s.mixer.count
  infos : s'.mixer.elemInfo.isSome = s.mixer.elemInfo.isSome
  ctl : ∀ ctl, s.mixer.ctl = some ctl →
    ∃ ctl', s'.mixer.ctl = some ctl' ∧ ∀ k, n ≤ k → ctl' k = ctl k

theorem Opening.Beyond.refl (n : Nat) (s : Opening) : s.Beyond n s :=
  ⟨rfl, rfl, rfl, rfl, fun ctl h => ⟨ctl, h, fun _ _ => rfl⟩⟩

theorem Opening.Beyond.trans {n : Nat} {s m s' : Opening} (h₁ : s.Beyond n m) (h₂ : m.Beyond n s') :
    s.Beyond n s' := by
  refine ⟨h₂.eid.trans h₁.eid, h₂.fd.trans h₁.fd, h₂.count.trans h₁.count,
    h₂.infos.trans h₁.infos, fun ctl hctl => ?_⟩
  obtain ⟨ctl₁, hctl₁, heq₁⟩ := h₁.ctl ctl hctl
  obtain ⟨ctl₂, hctl₂, heq₂⟩ := h₂.ctl ctl₁ hctl₁
  exact ⟨ctl₂, hctl₂, fun k hk => (heq₂ k hk).trans (heq₁ k hk)⟩

theorem Opening.Beyond.mono {n n' : Nat} {s s' : Opening} (h : s.Beyond n s') (hle : n ≤ n') :
    s.Beyond n' s' := by
  refine ⟨h.eid, h.fd, h.count, h.infos, fun ctl hctl => ?_⟩
  obtain ⟨ctl', hctl', heq⟩ := h.ctl ctl hctl
  exact ⟨ctl', hctl', fun k hk => heq k (hle.trans hk)⟩

theorem Opening.Beyond.of_setCtl (s : Opening) (n : Nat) (f : MixerCtl → MixerCtl) :
    s.Beyond (n + 1) (s.setCtl n f) := by
  refine ⟨rfl, rfl, rfl, rfl, fun ctl h => ?_⟩
  refine ⟨Function.update ctl n (f (ctl n)), ?_, fun k hk => ?_⟩
  · rw [Opening.setCtl, h]
    rfl
  · exact Function.update_of_ne (by omega) _ _

theorem Opening.Beyond.of_got (s : Opening) (n : Nat) (b : Block) : s.Beyond n (s.got b) :=
  ⟨rfl, rfl, rfl, rfl, fun ctl h => ⟨ctl, h, fun _ _ => rfl⟩⟩

theorem Opening.calloc_eq {card : Card} {s t : Opening} {b : Block} (h : s.calloc card b = some t) :
    t = s.got b := by
  rw [Opening.calloc] at h
  split at h
  · exact (Option.some.inj h).symm
  · cases h

/-- A block for the control `n`. -/
theorem Opening.Owns.ename {fd n : Nat} {s : Opening} {ctl : Nat → MixerCtl} {c : MixerCtl} {b : Block}
    (h : s.Owns fd) (hctl : s.mixer.ctl = some ctl) (hn : n < s.mixer.count)
    (hblocks : enameBlocks n c = .block b ::ₘ enameBlocks n (ctl n)) (hcounted : c.Counted) :
    ((s.got b).setCtl n fun _ => c).Owns fd := by
  constructor
  · refine (settle_acquire h.ledger _).trans (congrArg some ?_)
    rw [← Multiset.cons_add, ← Multiset.cons_add]
    congr 2
    have hbind : (Multiset.range s.mixer.count).bind
        (fun k => enameBlocks k (Function.update ctl n c k)) =
          .block b ::ₘ (Multiset.range s.mixer.count).bind fun k => enameBlocks k (ctl k) := by
      refine bind_range_cons hn ?_ fun k hk => ?_
      · rw [Function.update_self, hblocks]
      · rw [Function.update_of_ne hk]
    rw [Opening.setCtl, Opening.got, Mixer.blocks, Mixer.blocks]
    simp only [hctl, Option.map_some]
    rw [hbind]
    simp only [Multiset.cons_add]
  · intro ctl' hctl' k
    rw [Opening.setCtl, Opening.got, hctl, Option.map_some] at hctl'
    obtain rfl := Option.some.inj hctl'
    by_cases hk : k = n
    · rw [hk, Function.update_self]
      exact hcounted
    · rw [Function.update_of_ne hk]
      exact h.counted ctl hctl k

theorem openItems_spec (card : Card) (numid : Nat) {fd n left m : Nat} {s : Opening}
    {ctl : Nat → MixerCtl} {ei : ElemInfo} {names : List String} (h : s.Owns fd)
    (hctl : s.mixer.ctl = some ctl)
    (hn : n < s.mixer.count) (hcn : ctl n = ⟨some ei, some names⟩) (hm : names.length = m)
    (hleft : m + left ≤ ei.items) :
    (openItems card n numid left m s).2.Owns fd ∧
      s.Beyond (n + 1) (openItems card n numid left m s).2 := by
  induction left generalizing m s ctl names with
  | zero => exact ⟨h, Opening.Beyond.refl _ _⟩
  | succ left ih =>
      rw [openItems]
      split
      · exact ⟨h, Opening.Beyond.refl _ _⟩
      · rename_i name hname
        split
        · exact ⟨h, Opening.Beyond.refl _ _⟩
        · rename_i t ht
          obtain rfl := Opening.calloc_eq ht
          have hset : ((s.got (.ename n m)).setCtl n
              fun ctl => { ctl with ename := ctl.ename.map (· ++ [name]) }) =
              (s.got (.ename n m)).setCtl n fun _ => ⟨some ei, some (names ++ [name])⟩ := by
            simp only [Opening.setCtl, Opening.got, hctl, Option.map_some, hcn]
          have hnext := h.ename (c := ⟨some ei, some (names ++ [name])⟩) hctl hn (b := .ename n m) ?_ ?_
          · rw [hset]
            have hbeyond : s.Beyond (n + 1) ((s.got (.ename n m)).setCtl n
                fun _ => ⟨some ei, some (names ++ [name])⟩) :=
              (Opening.Beyond.of_got s _ _).trans (Opening.Beyond.of_setCtl _ n _)
            obtain ⟨howns, hrest⟩ := ih (m := m + 1) hnext
              (by rw [Opening.setCtl, Opening.got, hctl]; rfl) hn (Function.update_self _ _ _)
              (by rw [List.length_append, hm, List.length_singleton]) (by omega)
            exact ⟨howns, hbeyond.trans hrest⟩
          · rw [hcn, enameBlocks, enameBlocks]
            simp only [List.length_append, List.length_singleton, List.range_succ, List.map_append,
              hm, ← Multiset.coe_add]
            rw [← Multiset.singleton_add, add_comm (Multiset.ofList _) _, add_assoc]
            rfl
          · rintro names' ⟨⟩
            exact ⟨ei, rfl, by rw [List.length_append, hm, List.length_singleton]; omega⟩

/-- Writing the information of a control without names. -/
theorem Opening.Owns.info {fd n : Nat} {s : Opening} {ctl : Nat → MixerCtl} {infos : Nat → ElemInfo}
    (h : s.Owns fd) (hctl : s.mixer.ctl = some ctl) (hinfos : s.mixer.elemInfo = some infos)
    (hcn : (ctl n).ename = none) (ei : ElemInfo) :
    ({ s with mixer := { s.mixer with
        elemInfo := some (Function.update infos n ei)
        ctl := some (Function.update ctl n ⟨some ei, none⟩) } } : Opening).Owns fd := by
  have hsame : ∀ k,
      enameBlocks k (Function.update ctl n ⟨some ei, none⟩ k) = enameBlocks k (ctl k) := by
    intro k
    by_cases hk : k = n
    · rw [hk, Function.update_self, enameBlocks, enameBlocks, hcn]
    · rw [Function.update_of_ne hk]
  constructor
  · refine h.ledger.trans (congrArg some ?_)
    congr 2
    rw [Mixer.blocks, Mixer.blocks]
    simp only [hctl, hinfos, hsame]
  · intro ctl' hctl' k
    obtain rfl := Option.some.inj hctl'
    by_cases hk : k = n
    · rw [hk, Function.update_self]
      intro names hnames
      cases hnames
    · rw [Function.update_of_ne hk]
      exact h.counted ctl hctl k

theorem openElem_spec (card : Card) (eid : Nat → Nat) {fd n : Nat} {s : Opening}
    {ctl : Nat → MixerCtl} (h : s.Owns fd) (hctl : s.mixer.ctl = some ctl)
    (hinfos : s.mixer.elemInfo.isSome) (hn : n < s.mixer.count) (hcn : ctl n = ⟨none, none⟩) :
    (openElem card eid n s).2.Owns fd ∧ s.Beyond (n + 1) (openElem card eid n s).2 := by
  obtain ⟨infos, hinfos⟩ := Option.isSome_iff_exists.mp hinfos
  rw [openElem]
  split
  · exact ⟨h, Opening.Beyond.refl _ _⟩
  · rename_i ei hei
    dsimp only
    obtain ⟨t, ht⟩ : ∃ t : Opening, t = { s with mixer := { s.mixer with
        elemInfo := some (Function.update infos n ei)
        ctl := some (Function.update ctl n ⟨some ei, none⟩) } } := ⟨_, rfl⟩
    have hset : ({ s with mixer := { s.mixer with
        elemInfo := s.mixer.elemInfo.map fun infos => Function.update infos n ei } }.setCtl n
          fun ctl => { ctl with info := some ei } : Opening) = t := by
      rw [ht]
      simp only [Opening.setCtl, hctl, hinfos, Option.map_some, hcn]
    have howns : t.Owns fd := ht ▸ h.info hctl hinfos (by rw [hcn]) ei
    have hbeyond : s.Beyond (n + 1) t := by
      refine ⟨by rw [ht], by rw [ht], by rw [ht], by rw [ht, hinfos]; rfl, fun ctl' hctl' => ?_⟩
      obtain rfl := Option.some.inj (hctl.symm.trans hctl')
      refine ⟨Function.update ctl n ⟨some ei, none⟩, by rw [ht], fun k hk => ?_⟩
      exact Function.update_of_ne (by omega) _ _
    have htctl : t.mixer.ctl = some (Function.update ctl n ⟨some ei, none⟩) := by rw [ht]
    have htcount : n < t.mixer.count := by rw [ht]; exact hn
    clear ht
    rw [hset]
    split
    · split
      · exact ⟨howns, hbeyond⟩
      · rename_i u hu
        obtain rfl := Opening.calloc_eq hu
        have hnames : ((t.got (.enames n)).setCtl n fun ctl => { ctl with ename := some [] }) =
            (t.got (.enames n)).setCtl n fun _ => ⟨some ei, some []⟩ := by
          simp only [Opening.setCtl, Opening.got, htctl, Option.map_some, Function.update_self]
        rw [hnames]
        have hempty := howns.ename (c := ⟨some ei, some []⟩) (b := .enames n) htctl htcount (by
            rw [Function.update_self]
            rfl) (by
            rintro names ⟨⟩
            exact ⟨ei, rfl, Nat.zero_le _⟩)
        obtain ⟨hfinal, hrest⟩ := openItems_spec card (eid n) hempty
          (by rw [Opening.setCtl, Opening.got, htctl]; rfl) htcount (Function.update_self _ _ _) rfl
          (Nat.zero_add ei.items).le
        exact ⟨hfinal, ((hbeyond.trans (Opening.Beyond.of_got t _ _)).trans
          (Opening.Beyond.of_setCtl _ n _)).trans hrest⟩
    · exact ⟨howns, hbeyond⟩

theorem openElems_spec (card : Card) (eid : Nat → Nat) {fd left n : Nat} {s : Opening}
    {ctl : Nat → MixerCtl} (h : s.Owns fd) (hctl : s.mixer.ctl = some ctl)
    (hinfos : s.mixer.elemInfo.isSome) (hn : n + left = s.mixer.count)
    (hcn : ∀ k, n ≤ k → ctl k = ⟨none, none⟩) :
    (openElems card eid left n s).2.Owns fd ∧
      (openElems card eid left n s).2.eid = s.eid ∧
      (openElems card eid left n s).2.mixer.fd = s.mixer.fd := by
  induction left generalizing n s ctl with
  | zero => exact ⟨h, rfl, rfl⟩
  | succ left ih =>
      obtain ⟨howns, hbeyond⟩ := openElem_spec card eid h hctl hinfos (by omega)
        (hcn n le_rfl)
      rw [openElems]
      split
      · rename_i t ht
        rw [ht] at howns hbeyond
        obtain ⟨ctl', hctl', hsame⟩ := hbeyond.ctl ctl hctl
        obtain ⟨hfinal, heid, hfd⟩ := ih howns hctl' (by rw [hbeyond.infos]; exact hinfos)
          (by rw [hbeyond.count]; omega) (fun k hk => (hsame k hk).trans (hcn k (by omega)))
        exact ⟨hfinal, heid.trans hbeyond.eid, hfd.trans hbeyond.fd⟩
      · rename_i t ht
        rw [ht] at howns hbeyond
        exact ⟨howns, hbeyond.eid, hbeyond.fd⟩

/-! ## The whole of `mixer_open` -/

theorem Opening.Owns.got {fd : Nat} {s s' : Opening} {b : Block} (h : s.Owns fd)
    (hlog : s'.log = (s.got b).log)
    (hheld : s'.mixer.blocks + (if s'.eid then {.block .eid} else 0) =
      .block b ::ₘ (s.mixer.blocks + if s.eid then {.block .eid} else 0))
    (hcounted : s'.mixer.Counted) : s'.Owns fd := by
  refine ⟨?_, hcounted⟩
  rw [hlog, hheld, Multiset.cons_add]
  exact settle_acquire h.ledger _

/-- What fails between the allocation of the mixer and the assignment of its descriptor. -/
def Card.FailsEarly (card : Card) : Prop :=
  card.alloc .ctl = false ∨ card.alloc .elemInfo = false ∨ card.cardInfo = none ∨
    card.alloc .eid = false

instance (card : Card) : Decidable card.FailsEarly := by
  unfold Card.FailsEarly
  infer_instance

theorem openCtl_spec (card : Card) {fd : Nat} {s : Opening} (h : s.Owns fd)
    (hctl : s.mixer.ctl = none) (hcount : s.mixer.count = 0) :
    (openCtl card s).Owns fd ∧ (openCtl card s).eid = s.eid ∧
      (openCtl card s).mixer = { s.mixer with
        ctl := if card.alloc .ctl then some fun _ => ⟨none, none⟩ else none } := by
  rw [openCtl, Opening.calloc]
  cases card.alloc .ctl with
  | false =>
      refine ⟨h, rfl, ?_⟩
      rw [if_neg Bool.false_ne_true, if_neg Bool.false_ne_true, ← hctl]
  | true =>
      rw [if_pos rfl, if_pos rfl]
      refine ⟨h.got (b := .ctl) rfl ?_ ?_, rfl, rfl⟩
      · simp only [Mixer.blocks, Opening.got, hctl, hcount, Multiset.range_zero, Multiset.zero_bind]
        simp only [← Multiset.singleton_add, zero_add, add_assoc]
        rfl
      · intro ctl hctl n names hnames
        obtain rfl := Option.some.inj hctl
        cases hnames

theorem openInfos_spec (card : Card) {fd : Nat} {s : Opening} (h : s.Owns fd)
    (hinfos : s.mixer.elemInfo = none) :
    (openInfos card s).Owns fd ∧ (openInfos card s).eid = s.eid ∧
      (openInfos card s).mixer = { s.mixer with
        elemInfo := if card.alloc .elemInfo then some fun _ => noInfo else none } := by
  rw [openInfos, Opening.calloc]
  cases card.alloc .elemInfo with
  | false =>
      refine ⟨h, rfl, ?_⟩
      rw [if_neg Bool.false_ne_true, if_neg Bool.false_ne_true, ← hinfos]
  | true =>
      rw [if_pos rfl, if_pos rfl]
      refine ⟨h.got (b := .elemInfo) rfl ?_ h.counted, rfl, rfl⟩
      simp only [Mixer.blocks, Opening.got, hinfos]
      simp only [← Multiset.singleton_add, add_zero, add_assoc]
      rw [add_left_comm]
      rfl

theorem openMixer_spec (card : Card) (count : Nat) {fd : Nat} {s : Opening} (h : s.Owns fd)
    (hmixer : s.mixer = ⟨0, none, none, none, 0⟩) (heid : s.eid = false) :
    (openMixer card fd count s).2.Owns fd ∧
      if card.FailsEarly then (openMixer card fd count s).1 = false ∧
          (openMixer card fd count s).2.mixer.fd = 0 ∧ (openMixer card fd count s).2.eid = false
        else (openMixer card fd count s).2.mixer.fd = fd ∧
          (openMixer card fd count s).2.eid = true := by
  obtain ⟨hctl, heid₁, hmixer₁⟩ := openCtl_spec card h (by rw [hmixer]) (by rw [hmixer])
  obtain ⟨hinfos, heid₂, hmixer₂⟩ := openInfos_spec card hctl (by rw [hmixer₁, hmixer])
  rw [openMixer]
  generalize openInfos card (openCtl card s) = t at *
  rw [hmixer₁, hmixer] at hmixer₂
  rw [heid₁, heid] at heid₂
  have hfd : t.mixer.fd = 0 := by rw [hmixer₂]
  dsimp only
  split
  · -- one of the two arrays is missing
    rename_i hnull
    have hfail : card.FailsEarly := by
      rw [hmixer₂] at hnull
      cases hac : card.alloc .ctl with
      | false => exact .inl hac
      | true =>
          cases hai : card.alloc .elemInfo with
          | false => exact .inr (.inl hai)
          | true => simp [hac, hai] at hnull
    rw [if_pos hfail]
    exact ⟨hinfos, rfl, hfd, heid₂⟩
  · rename_i hnull
    obtain ⟨hac, hai⟩ : card.alloc .ctl = true ∧ card.alloc .elemInfo = true := by
      rw [hmixer₂] at hnull
      cases hac : card.alloc .ctl <;> cases hai : card.alloc .elemInfo <;> simp [hac, hai] at hnull ⊢
    split
    · rename_i hinfo
      have hfail : card.FailsEarly := .inr (.inr (.inl hinfo))
      rw [if_pos hfail]
      exact ⟨hinfos, rfl, hfd, heid₂⟩
    · rename_i name hinfo
      rw [Opening.calloc]
      cases hae : card.alloc .eid with
      | false =>
          have hfail : card.FailsEarly := .inr (.inr (.inr hae))
          rw [if_neg Bool.false_ne_true, if_pos hfail]
          exact ⟨⟨hinfos.ledger, hinfos.counted⟩, rfl, hfd, heid₂⟩
      | true =>
          have hlate : ¬ card.FailsEarly := by
            simp [Card.FailsEarly, hac, hai, hinfo, hae]
          rw [if_pos rfl, if_neg hlate]
          have howns : Opening.Owns fd ⟨⟨fd, some name, t.mixer.elemInfo, t.mixer.ctl, count⟩, true,
              (t.got .eid).log⟩ := by
            refine hinfos.got (b := .eid) rfl ?_ hinfos.counted
            -- no control has names yet
            have hnone : (Multiset.range count).bind
                (fun n => enameBlocks n ⟨none, none⟩) = 0 := Multiset.bind_zero _
            simp only [Mixer.blocks, hmixer₂, hac, if_true, hnone, heid₂, Multiset.range_zero,
              Multiset.zero_bind, ← Multiset.singleton_add, Bool.false_eq_true, if_false, add_zero]
            exact add_comm _ _
          have hctlnone : t.mixer.ctl = some fun _ => ⟨none, none⟩ := by
            rw [hmixer₂, hac]
            rfl
          dsimp only [if_true, Opening.got]
          split
          · exact ⟨howns, rfl, rfl⟩
          · rename_i eid heids
            obtain ⟨hfinal, heid', hfd'⟩ := openElems_spec card eid howns hctlnone
              (by rw [hmixer₂, hai]; rfl) (Nat.zero_add count) fun _ _ => rfl
            exact ⟨hfinal, hfd', heid'⟩

theorem Opening.Owns.free_eid {fd : Nat} {s : Opening} (h : s.Owns fd) :
    settle (s.log ++ if s.eid then [.release (.block .eid)] else []) {.fd 0} =
      some (s.mixer.blocks + {.fd fd, .fd 0}) := by
  rw [settle_append_of_eq h.ledger]
  cases s.eid with
  | false => simp [settle]
  | true =>
      rw [if_pos rfl, if_pos rfl, add_right_comm, add_comm, Multiset.singleton_add]
      exact settle_release _ _

/-- The mixer is closed with the descriptor `d`, and `rest` stays. -/
theorem Opening.Owns.close {fd : Nat} {s : Opening} (h : s.Owns fd) {rest : Multiset Resource}
    (hfd : ({.fd fd, .fd 0} : Multiset Resource) = .fd s.mixer.fd ::ₘ rest) :
    settle (s.log ++ (if s.eid then [.release (.block .eid)] else []) ++ mixerClose s.mixer)
      {.fd 0} = some rest := by
  rw [settle_append_of_eq h.free_eid, hfd, Multiset.add_cons, ← Multiset.cons_add,
    ← Multiset.singleton_add]
  exact settle_mixerClose h.counted rest

theorem Opening.owns_start (fd : Nat) : Opening.Owns fd ⟨⟨0, none, none, none, 0⟩, false,
    [.acquire (.fd fd)] ++ [.acquire (.block .mixer)]⟩ := by
  constructor
  · simp only [settle, Mixer.blocks, List.cons_append, List.nil_append, zero_add,
      Bool.false_eq_true, if_false, add_zero, Multiset.singleton_add]
    rfl
  · intro ctl hctl
    cases hctl

/-- **No block is lost.** A mixer that has been opened and closed leaves nothing behind, and so does a
`mixer_open` that fails, except between the allocation of the mixer and the assignment of its
descriptor: then the card stays open, and the descriptor 0 is closed in its place. -/
theorem mixerOpen_settles (card : Card) {fd : Nat} (hopen : card.openFd = some fd) :
    match (mixerOpen card).1 with
    | some mixer => settle ((mixerOpen card).2 ++ mixerClose mixer) {.fd 0} = some {.fd 0}
    | none => settle (mixerOpen card).2 {.fd 0} =
        some (if card.elemCount.isSome ∧ card.alloc .mixer = true ∧ card.FailsEarly then {.fd fd}
          else {.fd 0}) := by
  rw [mixerOpen, hopen]
  dsimp only
  cases hcount : card.elemCount with
  | none => simp [settle]
  | some count =>
      cases halloc : card.alloc .mixer with
      | false => simp [settle]
      | true =>
          obtain ⟨howns, hspec⟩ := openMixer_spec card count (Opening.owns_start fd) rfl rfl
          dsimp only
          rw [Bool.not_true, if_neg Bool.false_ne_true]
          rcases hres : openMixer card fd count ⟨⟨0, none, none, none, 0⟩, false,
            [.acquire (.fd fd)] ++ [.acquire (.block .mixer)]⟩ with ⟨ok, s⟩
          rw [hres] at howns hspec
          dsimp only at howns hspec
          rw [hres]
          cases ok with
          | true =>
              have hlate : ¬ card.FailsEarly := fun hfail => by
                rw [if_pos hfail] at hspec
                cases hspec.1
              rw [if_neg hlate] at hspec
              have hfd : ({.fd fd, .fd 0} : Multiset Resource) = .fd s.mixer.fd ::ₘ {.fd 0} := by
                rw [hspec.1]
                rfl
              have hclose := howns.close hfd
              rw [hspec.2, if_pos rfl] at hclose
              exact hclose
          | false =>
              refine howns.close ?_
              by_cases hfail : card.FailsEarly
              · rw [if_pos hfail] at hspec
                rw [if_pos ⟨rfl, rfl, hfail⟩, hspec.2.1]
                exact Multiset.cons_swap _ _ _
              · rw [if_neg hfail] at hspec
                rw [if_neg fun h => hfail h.2.2, hspec.1]
                rfl

/-- A card with a switch and an enumerated control; there is no memory for the second name. -/
def scarceCard (block : Block) : Card where
  openFd := some 5
  alloc := fun b => b != block
  elemCount := some 2
  cardInfo := some "mics"
  elemIds := some fun n => n + 1
  elemInfo := fun numid =>
    if numid = 1 then some ⟨1, "Mic Switch", .boolean, 1, 0, 1, 0, false⟩
    else some ⟨2, "Source", .enumerated, 2, 0, 0, 2, false⟩
  itemName := fun _ m => some (if m = 0 then "Line" else "Mic")

theorem mixerOpen_settles_scarceCard :
    settle (mixerOpen (scarceCard (.ename 1 1))).2 {.fd 0} = some {.fd 0} ∧
      settle (mixerOpen (scarceCard .ctl)).2 {.fd 0} = some {.fd 5} :=
  ⟨mixerOpen_settles (scarceCard (.ename 1 1)) rfl, mixerOpen_settles (scarceCard .ctl) rfl⟩

/-! ## What a mixer knows of its card -/

/-- The entry of the control `numid`, with its names when it is enumerated. -/
def MixerCtl.Describes (card : Card) (numid : Nat) (ctl : MixerCtl) : Prop :=
  ∃ info, card.elemInfo numid = some info ∧ ctl.info = some info ∧
    match ctl.ename with
    | none => info.type ≠ .enumerated
    | some names => info.type = .enumerated ∧
        names.map some = (List.range info.items).map (card.itemName numid)

theorem openItems_reads {card : Card} {n numid left m : Nat} {s t : Opening} {ctl : Nat → MixerCtl}
    {names : List String} (hctl : s.mixer.ctl = some ctl) (hname : (ctl n).ename = some names)
    (h : openItems card n numid left m s = (true, t)) :
    ∃ new, t.mixer.ctl = some (Function.update ctl n { ctl n with ename := some (names ++ new) }) ∧
      new.map some = (List.range' m left).map (card.itemName numid) ∧
      t.mixer.count = s.mixer.count ∧ t.mixer.fd = s.mixer.fd := by
  induction left generalizing m s ctl names with
  | zero =>
      obtain rfl := (Prod.mk.inj h).2
      refine ⟨[], ?_, rfl, rfl, rfl⟩
      rw [List.append_nil, ← hname, hctl, Function.update_eq_self]
  | succ left ih =>
      rw [openItems] at h
      split at h
      · cases (Prod.mk.inj h).1
      · rename_i name hitem
        split at h
        · cases (Prod.mk.inj h).1
        · rename_i u hu
          obtain rfl := Opening.calloc_eq hu
          have hset : ((s.got (.ename n m)).setCtl n
              fun ctl => { ctl with ename := ctl.ename.map (· ++ [name]) }).mixer.ctl =
              some (Function.update ctl n { ctl n with ename := some (names ++ [name]) }) := by
            simp only [Opening.setCtl, Opening.got, hctl, Option.map_some, hname]
          obtain ⟨new, hnew, hmap, hcount, hfd⟩ := ih hset (by rw [Function.update_self]) h
          refine ⟨name :: new, ?_, ?_, hcount, hfd⟩
          · rw [hnew, Function.update_self, Function.update_idem, List.append_assoc]
            rfl
          · rw [List.map_cons, hmap, List.range'_succ, List.map_cons, hitem]

theorem openElem_reads {card : Card} {eid : Nat → Nat} {n : Nat} {s t : Opening}
    {ctl : Nat → MixerCtl} (hctl : s.mixer.ctl = some ctl) (hcn : ctl n = ⟨none, none⟩)
    (h : openElem card eid n s = (true, t)) :
    ∃ c, t.mixer.ctl = some (Function.update ctl n c) ∧ c.Describes card (eid n) ∧
      t.mixer.count = s.mixer.count ∧ t.mixer.fd = s.mixer.fd := by
  rw [openElem] at h
  split at h
  · cases (Prod.mk.inj h).1
  · rename_i ei hei
    dsimp only at h
    split at h
    · rename_i htype
      split at h
      · cases (Prod.mk.inj h).1
      · rename_i u hu
        obtain rfl := Opening.calloc_eq hu
        obtain ⟨v, hv⟩ : ∃ v, v = ((({ s with mixer := { s.mixer with
            elemInfo := s.mixer.elemInfo.map fun infos => Function.update infos n ei } } :
              Opening).setCtl n fun ctl => { ctl with info := some ei }).got (.enames n)).setCtl n
                fun ctl => { ctl with ename := some [] } := ⟨_, rfl⟩
        have hvctl : v.mixer.ctl = some (Function.update ctl n ⟨some ei, some []⟩) := by
          simp only [hv, Opening.setCtl, Opening.got, hctl, Option.map_some, Function.update_self,
            Function.update_idem, hcn]
        rw [← hv] at h
        obtain ⟨new, hnew, hmap, hcount, hfd⟩ :=
          openItems_reads hvctl (by rw [Function.update_self]) h
        refine ⟨⟨some ei, some new⟩, ?_, ⟨ei, hei, rfl, htype, ?_⟩, ?_, ?_⟩
        · rw [hnew, Function.update_self, Function.update_idem, List.nil_append]
        · rw [hmap, List.range_eq_range']
        · rw [hcount, hv]
          rfl
        · rw [hfd, hv]
          rfl
    · rename_i htype
      obtain rfl := (Prod.mk.inj h).2
      refine ⟨⟨some ei, none⟩, ?_, ⟨ei, hei, rfl, htype⟩, rfl, rfl⟩
      simp only [Opening.setCtl, hctl, Option.map_some, hcn]

theorem openElems_reads {card : Card} {eid : Nat → Nat} {left n : Nat} {s t : Opening}
    {ctl : Nat → MixerCtl} (hctl : s.mixer.ctl = some ctl)
    (hdone : ∀ k, k < n → (ctl k).Describes card (eid k))
    (hrest : ∀ k, n ≤ k → ctl k = ⟨none, none⟩) (h : openElems card eid left n s = (true, t)) :
    ∃ ctl', t.mixer.ctl = some ctl' ∧ (∀ k, k < n + left → (ctl' k).Describes card (eid k)) ∧
      t.mixer.count = s.mixer.count ∧ t.mixer.fd = s.mixer.fd := by
  induction left generalizing n s ctl with
  | zero =>
      obtain rfl := (Prod.mk.inj h).2
      exact ⟨ctl, hctl, hdone, rfl, rfl⟩
  | succ left ih =>
      rw [openElems] at h
      split at h
      · rename_i u hu
        obtain ⟨c, hc, hdescribes, hcount, hfd⟩ := openElem_reads hctl (hrest n le_rfl) hu
        have hdone' : ∀ k, k < n + 1 → (Function.update ctl n c k).Describes card (eid k) := by
          intro k hk
          rcases Nat.lt_succ_iff_lt_or_eq.mp hk with hlt | rfl
          · rw [Function.update_of_ne (by omega)]
            exact hdone k hlt
          · rw [Function.update_self]
            exact hdescribes
        have hrest' : ∀ k, n + 1 ≤ k → Function.update ctl n c k = ⟨none, none⟩ := by
          intro k hk
          rw [Function.update_of_ne (by omega)]
          exact hrest k (by omega)
        obtain ⟨ctl', hctl', hall, hcount', hfd'⟩ := ih hc hdone' hrest' h
        exact ⟨ctl', hctl', fun k hk => hall k (by omega), hcount'.trans hcount, hfd'.trans hfd⟩
      · cases (Prod.mk.inj h).1

theorem openMixer_reads {card : Card} {fd count : Nat} {s t : Opening} (h : s.Owns fd)
    (hmixer : s.mixer = ⟨0, none, none, none, 0⟩) (ht : openMixer card fd count s = (true, t)) :
    ∃ eid ctl, card.elemIds = some eid ∧ t.mixer.ctl = some ctl ∧ t.mixer.count = count ∧
      t.mixer.fd = fd ∧ ∀ n, n < count → (ctl n).Describes card (eid n) := by
  obtain ⟨hctl, -, hmixer₁⟩ := openCtl_spec card h (by rw [hmixer]) (by rw [hmixer])
  obtain ⟨-, -, hmixer₂⟩ := openInfos_spec card hctl (by rw [hmixer₁, hmixer])
  rw [openMixer] at ht
  generalize openInfos card (openCtl card s) = u at *
  rw [hmixer₁, hmixer] at hmixer₂
  dsimp only at ht
  split at ht
  · cases (Prod.mk.inj ht).1
  · rename_i hnull
    split at ht
    · cases (Prod.mk.inj ht).1
    · split at ht
      · cases (Prod.mk.inj ht).1
      · rename_i v hv
        have hvctl : v.mixer.ctl = some fun _ => ⟨none, none⟩ := by
          rw [Opening.calloc_eq hv]
          rw [hmixer₂] at hnull
          cases hac : card.alloc .ctl with
          | false => simp [hac] at hnull
          | true => simp [Opening.got, hmixer₂, hac]
        split at ht
        · cases (Prod.mk.inj ht).1
        · rename_i eid heid
          obtain ⟨w, hw⟩ : ∃ w, w = (⟨⟨fd, v.mixer.cardInfo, v.mixer.elemInfo, v.mixer.ctl, count⟩,
            true, v.log⟩ : Opening) := ⟨_, rfl⟩
          have hwctl : w.mixer.ctl = some fun _ => ⟨none, none⟩ := by rw [hw, hvctl]
          rw [← hw] at ht
          obtain ⟨ctl, hctl', hall, hcount, hfd⟩ :=
            openElems_reads hwctl (fun k hk => absurd hk (Nat.not_lt_zero k)) (fun _ _ => rfl) ht
          rw [hw] at hcount hfd
          exact ⟨eid, ctl, heid, hctl', hcount, hfd, fun n hn => hall n (by omega)⟩

/-- **The mixer reads its card.** What `mixer_open` returns lists the controls of the card, in its
order, each with its information and an enumerated one with the names of all its items. -/
theorem mixerOpen_reads {card : Card} {mixer : Mixer} (h : (mixerOpen card).1 = some mixer) :
    ∃ eid ctl, card.elemIds = some eid ∧ mixer.ctl = some ctl ∧
      card.elemCount = some mixer.count ∧ card.openFd = some mixer.fd ∧
      ∀ n, n < mixer.count → (ctl n).Describes card (eid n) := by
  rw [mixerOpen] at h
  split at h
  · cases h
  · rename_i fd hfd
    dsimp only at h
    split at h
    · cases h
    · rename_i count hcount
      split at h
      · cases h
      · split at h
        · rename_i t ht
          obtain rfl := Option.some.inj h
          obtain ⟨eid, ctl, heid, hctl, hcount', hfd', hall⟩ :=
            openMixer_reads (Opening.owns_start fd) rfl ht
          refine ⟨eid, ctl, heid, hctl, by rw [hcount, hcount'], by rw [hfd, hfd'], ?_⟩
          rwa [hcount']
        · cases h

theorem mixerOpen_reads_scarceCard :
    ∃ mixer ctl, (mixerOpen (scarceCard (.ename 9 9))).1 = some mixer ∧ mixer.ctl = some ctl ∧
      mixer.count = 2 ∧ (ctl 1).ename = some ["Line", "Mic"] ∧
      (ctl 1).Describes (scarceCard (.ename 9 9)) 2 := by
  obtain ⟨mixer, hmixer⟩ : ∃ mixer, (mixerOpen (scarceCard (.ename 9 9))).1 = some mixer := ⟨_, rfl⟩
  obtain ⟨eid, ctl, heid, hctl, hcount, -, hall⟩ := mixerOpen_reads hmixer
  obtain rfl := Option.some.inj heid
  have hcount' := Option.some.inj hcount
  refine ⟨mixer, ctl, hmixer, hctl, hcount'.symm, ?_, hall 1 (by omega)⟩
  obtain rfl := Option.some.inj hmixer
  obtain rfl := Option.some.inj hctl
  rfl

end SpeechStack.Tinyalsa
