import P256Index.Registrar.Protocol
import P256Index.Saturating

/-!
# Gas pricing

The decision half of a chain write. A fresh transaction needs the base fee and the tip, and is
priced with headroom above them, under an absolute cap; `planFees_exact` says that it is sent
exactly where what it needs fits. Nodes take a same-nonce replacement only if it outbids the stuck
transaction on both fee fields, each strictly and by a tenth at least; `planReplacement` prices it
against the bid that transaction was sent at. `planReplacement_exact` says that it sends exactly
where a bid that the node accepts fits under the cap.
-/

namespace P256Index.Registrar.Gas

open Saturating

/-! ## Policy -/

def baseFeeHeadroomNum : UInt64 := 200
def baseFeeHeadroomDen : UInt64 := 100
def replacementNum : UInt64 := 150
def replacementDen : UInt64 := 100
def minReplacementNum : UInt64 := 110
def minReplacementDen : UInt64 := 100
def defaultTipWei : U256 := 1000

/-- The two EIP-1559 fee fields. -/
structure FeePlan where
  maxFeePerGas : U256
  maxPriorityFeePerGas : U256
  deriving DecidableEq

inductive FeeVerdict where
  | send (plan : FeePlan)
  | tooExpensive (required cap : U256)
  deriving DecidableEq

/-- `ceil(value * num / den)`, and greater than a value that is not zero. -/
def strictlyAbove (value : U256) (num den : UInt64) : U256 :=
  if value = 0 then 0
  else
    let den := u256OfU64 den
    let scaled := mul value (u256OfU64 num)
    -- `den.saturating_sub(1)`
    let ceiling := add scaled ⟨den.val - 1, by omega⟩ / den
    max ceiling (add value 1)

/-- `value * 1.5^attempts`. -/
def escalate (value : U256) (attempts : UInt32) : U256 :=
  (fun result => strictlyAbove result replacementNum replacementDen)^[min attempts.toNat 16] value

/-- The price that leaves headroom above the current base fee. -/
def marketCeiling (baseFee tip : U256) : U256 :=
  add (mul baseFee (u256OfU64 baseFeeHeadroomNum) / u256OfU64 baseFeeHeadroomDen) tip

/-- Price a fresh transaction against the current base fee. -/
def planFees (baseFee tip cap : U256) : FeeVerdict :=
  let minimum := add baseFee tip
  if cap < minimum then .tooExpensive minimum cap
  else
    let maxFee := min (marketCeiling baseFee tip) cap
    .send { maxFeePerGas := maxFee, maxPriorityFeePerGas := min tip maxFee }

/-- The bid of a row written before fees were recorded. -/
def assumedBid (baseFee tip : U256) (attempts : UInt32) : FeePlan :=
  let assumedTip := escalate (add baseFee 1) attempts
  { maxFeePerGas := max (escalate (marketCeiling baseFee tip) attempts) assumedTip
    maxPriorityFeePerGas := assumedTip }

/-- Price a same-nonce replacement for a stuck transaction. -/
def planReplacement (previous : Option FeePlan) (baseFee tip cap : U256) (attempts : UInt32) :
    FeeVerdict :=
  let previous := previous.getD (assumedBid baseFee tip attempts)
  let feeFloor := strictlyAbove previous.maxFeePerGas minReplacementNum minReplacementDen
  let tipFloor := strictlyAbove previous.maxPriorityFeePerGas minReplacementNum minReplacementDen
  let required := max (max feeFloor tipFloor) (add baseFee tipFloor)
  if cap < required then .tooExpensive required cap
  else
    let newTip := min (max (max (max
      (strictlyAbove previous.maxPriorityFeePerGas replacementNum replacementDen) tipFloor)
      tip) 1) cap
    let newMaxFee := min (max (max (max
      (strictlyAbove previous.maxFeePerGas replacementNum replacementDen) feeFloor)
      (marketCeiling baseFee tip)) newTip) cap
    .send { maxFeePerGas := newMaxFee, maxPriorityFeePerGas := min newTip newMaxFee }

/-! ## A fresh transaction -/

section Fresh

variable {baseFee tip cap : U256} {plan : FeePlan}

/-- Twice the base fee does not saturate below the cap. -/
theorem val_headroom (hbase : baseFee.val < 2 ^ 128) :
    (mul baseFee (u256OfU64 baseFeeHeadroomNum) / u256OfU64 baseFeeHeadroomDen).val =
      2 * baseFee.val := by
  have hscaled : (mul baseFee (u256OfU64 baseFeeHeadroomNum)).val = baseFee.val * 200 := by
    refine val_mul_of_lt ?_
    show baseFee.val * 200 < _
    omega
  rw [Fin.div_val, hscaled]
  show baseFee.val * 200 / 100 = _
  omega

/-- Below the cap the ceiling is the true one. -/
theorem val_marketCeiling (hbase : baseFee.val < 2 ^ 128) (htip : tip.val < 2 ^ 128) :
    (marketCeiling baseFee tip).val = 2 * baseFee.val + tip.val := by
  unfold marketCeiling
  rw [val_add_of_lt ?_, val_headroom hbase]
  rw [val_headroom hbase]
  omega

/-- The two ways a price comes out. -/
theorem planFees_cases (baseFee tip cap : U256) :
    (cap < add baseFee tip ∧ planFees baseFee tip cap = .tooExpensive (add baseFee tip) cap) ∨
      add baseFee tip ≤ cap ∧ planFees baseFee tip cap = .send
        ⟨min (marketCeiling baseFee tip) cap, min tip (min (marketCeiling baseFee tip) cap)⟩ := by
  unfold planFees
  dsimp only
  split
  · next hover => exact .inl ⟨hover, rfl⟩
  · next hfits => exact .inr ⟨not_lt.mp hfits, rfl⟩

/-- A fresh transaction is sent exactly where the base fee and the tip fit under the cap, at a price
that pays both, stays under the cap and asks for no more than twice the base fee besides the whole
tip. -/
theorem planFees_exact (baseFee tip cap : U256) (hcap : cap.val < 2 ^ 128) :
    ((∃ plan, planFees baseFee tip cap = .send plan) ↔ baseFee.val + tip.val ≤ cap.val) ∧
    ∀ plan, planFees baseFee tip cap = .send plan →
      baseFee.val + tip.val ≤ plan.maxFeePerGas.val ∧ plan.maxFeePerGas ≤ cap ∧
      plan.maxFeePerGas.val ≤ 2 * baseFee.val + tip.val ∧ plan.maxPriorityFeePerGas = tip := by
  have hfits : add baseFee tip ≤ cap ↔ baseFee.val + tip.val ≤ cap.val := add_le_iff (by omega)
  rcases planFees_cases baseFee tip cap with ⟨hover, hplan⟩ | ⟨hunder, hplan⟩
  · rw [← not_le, hfits] at hover
    rw [hplan]
    refine ⟨⟨?_, fun hle => absurd hle hover⟩, ?_⟩
    · rintro ⟨plan, hsend⟩
      cases hsend
    · intro plan hsend
      cases hsend
  · have hsum := hfits.mp hunder
    rw [hplan]
    refine ⟨⟨fun _ => hsum, fun _ => ⟨_, rfl⟩⟩, ?_⟩
    intro plan hsend
    cases hsend
    -- nothing saturates under the cap
    have hceiling : (marketCeiling baseFee tip).val = 2 * baseFee.val + tip.val :=
      val_marketCeiling (by omega) (by omega)
    have hmax : (min (marketCeiling baseFee tip) cap).val =
        min (2 * baseFee.val + tip.val) cap.val := by
      rw [Fin.coe_min, hceiling]
    dsimp only
    refine ⟨by omega, min_le_right _ _, by omega, ?_⟩
    apply min_eq_left
    rw [Fin.le_def]
    omega

/-- The usual price, one at the cap, and one above it. -/
theorem planFees_exact_usual :
    planFees 9000 1000 10000000 = .send ⟨19000, 1000⟩ ∧ planFees 9 1 10 = .send ⟨10, 1⟩ ∧
      planFees 10 1 10 = .tooExpensive 11 10 ∧
      ¬ (10 : U256).val + (1 : U256).val ≤ (10 : U256).val ∧
      (9 : U256).val + (1 : U256).val ≤ (10 : U256).val := by
  have htight : planFees 9 1 10 = .send ⟨10, 1⟩ := by decide +kernel
  have hten : (10 : U256).val < 2 ^ 128 := by decide +kernel
  exact ⟨by decide +kernel, htight, by decide +kernel, by decide +kernel,
    (planFees_exact 9 1 10 hten).1.mp ⟨_, htight⟩⟩

end Fresh

/-! ## What a node accepts -/

/-- The rule of a node for one fee field of a replacement. -/
def Outbids (old new : ℕ) : Prop := old < new ∧ 110 * old ≤ 100 * new

/-- The floor is the least bid above a recorded one: zero where nothing was bid. -/
theorem strictlyAbove_le_iff {value cap : U256} (hvalue : value.val < 2 ^ 128) (hne : value ≠ 0) :
    strictlyAbove value minReplacementNum minReplacementDen ≤ cap ↔ Outbids value.val cap.val := by
  have hscaled : (mul value (u256OfU64 minReplacementNum)).val = value.val * 110 := by
    refine val_mul_of_lt ?_
    show value.val * 110 < _
    omega
  have hone : (add value 1).val = value.val + 1 := by
    refine val_add_of_lt ?_
    show value.val + 1 < _
    omega
  have hceiling : (add (mul value (u256OfU64 minReplacementNum)) ⟨99, by norm_num⟩).val =
      value.val * 110 + 99 := by
    rw [val_add_of_lt ?_, hscaled]
    rw [hscaled]
    show value.val * 110 + 99 < _
    omega
  unfold strictlyAbove
  rw [if_neg hne]
  show max (_ / _) _ ≤ cap ↔ _
  rw [max_le_iff, Fin.le_def, Fin.le_def, Fin.div_val, hone]
  show (add (mul value (u256OfU64 minReplacementNum)) ⟨99, _⟩).val / 100 ≤ _ ∧ _ ↔ _
  rw [hceiling, Outbids]
  omega

theorem strictlyAbove_zero (num den : UInt64) : strictlyAbove 0 num den = 0 := if_pos rfl

/-- Above the floor and above zero a bid outbids the recorded one. -/
theorem outbids_of_floor {value bid : U256} (hvalue : value.val < 2 ^ 128)
    (hfloor : strictlyAbove value minReplacementNum minReplacementDen ≤ bid) (hpos : 0 < bid.val) :
    Outbids value.val bid.val := by
  by_cases hzero : value = 0
  · subst hzero
    exact ⟨hpos, Nat.zero_le _⟩
  · exact (strictlyAbove_le_iff hvalue hzero).mp hfloor

/-- No bid below the floor outbids the recorded one. -/
theorem floor_le_of_outbids {value : U256} {bid : ℕ} (hvalue : value.val < 2 ^ 128)
    (h : Outbids value.val bid) :
    (strictlyAbove value minReplacementNum minReplacementDen).val ≤ bid := by
  by_cases hzero : value = 0
  · subst hzero
    rw [strictlyAbove_zero]
    exact Nat.zero_le bid
  by_cases hbid : bid < 2 ^ 256
  · have hle : strictlyAbove value minReplacementNum minReplacementDen ≤ ⟨bid, hbid⟩ :=
      (strictlyAbove_le_iff hvalue hzero).mpr h
    exact hle
  · exact le_trans (Fin.is_lt _).le (not_lt.mp hbid)

/-! ## The plan -/

variable {previous : Option FeePlan} {baseFee tip cap : U256} {attempts : UInt32} {plan : FeePlan}

/-- No replacement is priced past the cap, whatever is known of the stuck transaction. -/
theorem send_le_cap (h : planReplacement previous baseFee tip cap attempts = .send plan) :
    plan.maxPriorityFeePerGas ≤ plan.maxFeePerGas ∧ plan.maxFeePerGas ≤ cap := by
  unfold planReplacement at h
  dsimp only at h
  split at h
  · cases h
  · cases h
    exact ⟨min_le_right _ _, min_le_right _ _⟩

/-- A replacement that is sent reaches the floors, costs something, and stays above the base fee. -/
theorem send_bounds {recorded : FeePlan} (hcap : 1 ≤ cap.val) (hcap' : cap.val ≤ 2 ^ 128 - 1)
    (h : planReplacement (some recorded) baseFee tip cap attempts = .send plan) :
    strictlyAbove recorded.maxFeePerGas minReplacementNum minReplacementDen ≤ plan.maxFeePerGas ∧
    strictlyAbove recorded.maxPriorityFeePerGas minReplacementNum minReplacementDen ≤
      plan.maxPriorityFeePerGas ∧
    1 ≤ plan.maxPriorityFeePerGas ∧ baseFee ≤ plan.maxFeePerGas := by
  unfold planReplacement at h
  dsimp only [Option.getD_some] at h
  split at h
  · cases h
  next hfits =>
    obtain ⟨⟨hfee, htip⟩, hbase⟩ := by simpa only [not_lt, max_le_iff] using hfits
    cases h
    have hbase' : baseFee ≤ cap := le_trans (le_add_left _ _) hbase
    have hone : (1 : U256) ≤ cap := hcap
    -- twice the base fee does not saturate below the cap
    have hmarket : baseFee ≤ marketCeiling baseFee tip := by
      refine le_trans ?_ (le_add_left _ _)
      have hlt : baseFee.val ≤ cap.val := hbase'
      rw [Fin.le_def, val_headroom (by omega)]
      omega
    dsimp only
    simp only [le_min_iff, le_max_iff, le_refl, true_or, or_true, true_and]
    grind

/-- A recorded bid is outbid on both fields. -/
theorem send_outbids {recorded : FeePlan} (hfee : recorded.maxFeePerGas.val < 2 ^ 128)
    (htip : recorded.maxPriorityFeePerGas.val < 2 ^ 128) (hcap : 1 ≤ cap.val)
    (hcap' : cap.val ≤ 2 ^ 128 - 1)
    (h : planReplacement (some recorded) baseFee tip cap attempts = .send plan) :
    Outbids recorded.maxFeePerGas.val plan.maxFeePerGas.val ∧
      Outbids recorded.maxPriorityFeePerGas.val plan.maxPriorityFeePerGas.val := by
  obtain ⟨hfeeFloor, htipFloor, hone, -⟩ := send_bounds hcap hcap' h
  have hpos : 0 < plan.maxPriorityFeePerGas.val := hone
  have hle : plan.maxPriorityFeePerGas.val ≤ plan.maxFeePerGas.val := (send_le_cap h).1
  exact ⟨outbids_of_floor hfee hfeeFloor (lt_of_lt_of_le hpos hle),
    outbids_of_floor htip htipFloor hpos⟩

/-- What is refused does not fit under the cap. -/
theorem required_of_tooExpensive {recorded : FeePlan} {required cap' : U256}
    (h : planReplacement (some recorded) baseFee tip cap attempts = .tooExpensive required cap') :
    cap < strictlyAbove recorded.maxFeePerGas minReplacementNum minReplacementDen ∨
    cap < strictlyAbove recorded.maxPriorityFeePerGas minReplacementNum minReplacementDen ∨
    cap < add baseFee (strictlyAbove recorded.maxPriorityFeePerGas minReplacementNum
      minReplacementDen) := by
  unfold planReplacement at h
  dsimp only [Option.getD_some] at h
  split at h
  next hover => simpa only [lt_max_iff, or_assoc] using hover
  · cases h

/-- A replacement of a recorded bid is one that the node accepts, under the cap and above the base
fee; and where none is sent, no such bid exists. -/
theorem planReplacement_exact (recorded : FeePlan) (baseFee tip cap : U256) (attempts : UInt32)
    (hfee : recorded.maxFeePerGas.val < 2 ^ 128)
    (htip : recorded.maxPriorityFeePerGas.val < 2 ^ 128) (hcap : 1 ≤ cap.val)
    (hcap' : cap.val ≤ 2 ^ 128 - 1) :
    (∀ plan, planReplacement (some recorded) baseFee tip cap attempts = .send plan →
      Outbids recorded.maxFeePerGas.val plan.maxFeePerGas.val ∧
      Outbids recorded.maxPriorityFeePerGas.val plan.maxPriorityFeePerGas.val ∧
      plan.maxPriorityFeePerGas ≤ plan.maxFeePerGas ∧ plan.maxFeePerGas ≤ cap ∧
      baseFee ≤ plan.maxFeePerGas) ∧
    ∀ required cap', planReplacement (some recorded) baseFee tip cap attempts =
        .tooExpensive required cap' →
      ∀ maxFee priority : ℕ, priority ≤ maxFee → maxFee ≤ cap.val →
        baseFee.val + priority ≤ maxFee → ¬ (Outbids recorded.maxFeePerGas.val maxFee ∧
          Outbids recorded.maxPriorityFeePerGas.val priority) := by
  constructor
  · intro plan h
    obtain ⟨hfees, htips⟩ := send_outbids hfee htip hcap hcap' h
    obtain ⟨horder, hunder⟩ := send_le_cap h
    exact ⟨hfees, htips, horder, hunder, (send_bounds hcap hcap' h).2.2.2⟩
  · rintro required cap' h maxFee priority horder hunder hbase ⟨hfees, htips⟩
    -- each floor is at most the bid, so all of them fit
    have hfeeFloor := floor_le_of_outbids hfee hfees
    have htipFloor := floor_le_of_outbids htip htips
    rcases required_of_tooExpensive h with hover | hover | hover
    · rw [Fin.lt_def] at hover
      omega
    · rw [Fin.lt_def] at hover
      omega
    · rw [← not_le, add_le_iff (by omega)] at hover
      omega

/-- A small bid is outbid on both fields, and a bid at the cap is refused. -/
theorem planReplacement_exact_small :
    (planReplacement (some ⟨2, 1⟩) 1 0 10 0 = .send ⟨3, 2⟩ ∧ Outbids 2 3 ∧ Outbids 1 2) ∧
    planReplacement (some ⟨10, 10⟩) 1 0 10 0 = .tooExpensive 12 10 ∧
      ¬ (Outbids 10 10 ∧ Outbids 10 9) := by
  have hsend : planReplacement (some ⟨2, 1⟩) 1 0 10 0 = .send ⟨3, 2⟩ := by decide +kernel
  have hrefused : planReplacement (some ⟨10, 10⟩) 1 0 10 0 = .tooExpensive 12 10 := by
    decide +kernel
  have hone : (1 : U256).val < 2 ^ 128 := by decide +kernel
  have htwo : (2 : U256).val < 2 ^ 128 := by decide +kernel
  have hten : (10 : U256).val < 2 ^ 128 := by decide +kernel
  have hcap : 1 ≤ (10 : U256).val := by decide +kernel
  have hcap' : (10 : U256).val ≤ 2 ^ 128 - 1 := by decide +kernel
  obtain ⟨hfee, htip, -⟩ := (planReplacement_exact ⟨2, 1⟩ 1 0 10 0 htwo hone hcap hcap').1 _ hsend
  exact ⟨⟨hsend, hfee, htip⟩, hrefused, (planReplacement_exact ⟨10, 10⟩ 1 0 10 0 hten hten hcap
    hcap').2 _ _ hrefused 10 9 (by norm_num) le_rfl le_rfl⟩

end P256Index.Registrar.Gas
