import Mathlib.Tactic.FieldSimp
import PatternMarkup.Proofs.Geometry.AxisLayout
/-!
The map of a laid out axis and the map back. Both keep the order of coordinates and send bounds to
bounds. What is drawn is found again, and with no part drawn as a point the maps undo each other
everywhere. Where the parts between two fixed ones have shrunk to a point, both are drawn up to it;
it is read as the end of the first, so of all that lies in fixed parts only the beginning of the
second one is lost.
-/

namespace PatternMarkup

variable {α : Type} [ExactNumber α]

/-! ### Parts side by side -/

theorem SegmentKind.eq_of_next_eq {kind other : SegmentKind} (h : kind.next = other.next) :
    kind = other := by
  cases kind with
  | fixed =>
      cases other with
      | fixed => rfl
      | proportional => cases h
  | proportional =>
      cases other with
      | fixed => cases h
      | proportional => rfl

namespace AxisPart

/-- Whether a coordinate belongs to this part or one after it: a fixed part has its lower bound,
a proportional part does not. -/
def StartsBy (part : AxisPart α) (p : α) : Prop :=
  match part.kind with
  | .fixed => part.low ≤ p
  | .proportional => part.low < p

theorem Meets.startsBy_iff {a b : AxisPart α} (h : a.Meets b) (p : α) :
    b.StartsBy p ↔ a.reaches p = false := by
  unfold StartsBy reaches
  rw [h.kind_eq, h.low_eq]
  cases a.kind with
  | fixed => simp [SegmentKind.next]
  | proportional => simp [SegmentKind.next]

variable {part : AxisPart α} {p p' : α}

theorem StartsBy.low_le (h : part.StartsBy p) : part.low ≤ p := by
  unfold StartsBy at h
  split at h
  · exact h
  · exact h.le

theorem startsBy_of_low_lt (h : part.low < p) : part.StartsBy p := by
  unfold StartsBy
  split
  · exact h.le
  · exact h

theorem startsBy_of_fixed (hkind : part.kind = .fixed) (h : part.low ≤ p) : part.StartsBy p := by
  unfold StartsBy
  rw [hkind]
  exact h

theorem reaches_of_fixed (hkind : part.kind = .fixed) (h : p ≤ part.high) :
    part.reaches p = true := by
  unfold reaches
  rw [hkind]
  exact decide_eq_true h

theorem le_high_of_reaches (h : part.reaches p = true) : p ≤ part.high := by
  unfold reaches at h
  split at h
  · exact of_decide_eq_true h
  · exact (of_decide_eq_true h).le

theorem high_le_of_not_reaches (h : part.reaches p = false) : part.high ≤ p := by
  unfold reaches at h
  split at h
  · exact (not_le.mp (of_decide_eq_false h)).le
  · exact not_lt.mp (of_decide_eq_false h)

theorem not_reaches_of_high_lt (h : part.high < p) : part.reaches p = false := by
  unfold reaches
  split
  · exact decide_eq_false (not_le.mpr h)
  · exact decide_eq_false (not_lt.mpr h.le)

theorem reaches_low (h : part.low < part.high) : part.reaches part.low = true := by
  unfold reaches
  split
  · exact decide_eq_true h.le
  · exact decide_eq_true h

/-- What belongs to a part or one before it, belongs there also when it moves down. -/
theorem reaches_of_le (h : part.reaches p' = true) (hp : p ≤ p') : part.reaches p = true := by
  unfold reaches at *
  split at h
  · exact decide_eq_true (hp.trans (of_decide_eq_true h))
  · exact decide_eq_true (hp.trans_lt (of_decide_eq_true h))

/-! ### The linear map between two parts -/

variable (source target : AxisPart α)

theorem mapLinear_low : source.mapLinear target source.low = target.low := by
  unfold mapLinear
  simp only [sub_self, zero_mul, zero_div, add_zero, ite_self]

/-- A part that counts as a point is sent to one. -/
theorem mapLinear_of_short (hsource : source.low ≤ source.high)
    (h : ¬ Number.epsilon < source.length) (v : α) : source.mapLinear target v = target.low := by
  have hshort : Number.abs (source.high - source.low) ≤ Number.epsilon := by
    rw [ExactNumber.abs_eq, abs_of_nonneg (sub_nonneg.mpr hsource)]
    exact not_lt.mp h
  unfold mapLinear
  exact if_pos hshort

theorem mapLinear_of_long (h : Number.epsilon < source.length) (v : α) :
    source.mapLinear target v =
      target.low + (v - source.low) * target.length / source.length := by
  have hlong : ¬ Number.abs (source.high - source.low) ≤ Number.epsilon := by
    rw [ExactNumber.abs_eq, not_le]
    exact lt_of_lt_of_le h (le_abs_self _)
  unfold mapLinear
  exact if_neg hlong

variable {source target}

theorem length_pos_of_long (h : Number.epsilon < part.length) : 0 < part.length :=
  ExactNumber.epsilon_pos.trans h

theorem low_lt_high_of_long (h : Number.epsilon < part.length) : part.low < part.high :=
  sub_pos.mp (length_pos_of_long h)

theorem mapLinear_high (target : AxisPart α) (h : Number.epsilon < source.length) :
    source.mapLinear target source.high = target.high := by
  have hlength := (length_pos_of_long h).ne'
  rw [mapLinear_of_long source target h]
  show target.low + source.length * target.length / source.length = target.high
  rw [mul_div_cancel_left₀ _ hlength]
  exact add_sub_cancel target.low target.high

/-- Short parts and long ones alike are mapped in order. -/
theorem monotone_mapLinear (hsource : source.low ≤ source.high)
    (htarget : target.low ≤ target.high) : Monotone (source.mapLinear target) := by
  intro p p' hp
  by_cases hlong : Number.epsilon < source.length
  · rw [mapLinear_of_long source target hlong, mapLinear_of_long source target hlong]
    have hlength := length_pos_of_long hlong
    have hdrawn : 0 ≤ target.length := sub_nonneg.mpr htarget
    gcongr
  · rw [mapLinear_of_short source target hsource hlong,
      mapLinear_of_short source target hsource hlong]

theorem strictMono_mapLinear (hsource : Number.epsilon < source.length)
    (htarget : target.low < target.high) : StrictMono (source.mapLinear target) := by
  intro p p' hp
  rw [mapLinear_of_long source target hsource, mapLinear_of_long source target hsource]
  have hlength := length_pos_of_long hsource
  have hdrawn : 0 < target.length := sub_pos.mpr htarget
  gcongr

theorem low_le_mapLinear (hsource : source.low ≤ source.high) (htarget : target.low ≤ target.high)
    (hp : source.low ≤ p) : target.low ≤ source.mapLinear target p := by
  have hmono := monotone_mapLinear hsource htarget hp
  rwa [mapLinear_low] at hmono

theorem mapLinear_le_high (hsource : source.low ≤ source.high) (htarget : target.low ≤ target.high)
    (hp : p ≤ source.high) : source.mapLinear target p ≤ target.high := by
  by_cases hlong : Number.epsilon < source.length
  · have hmono := monotone_mapLinear hsource htarget hp
    rwa [mapLinear_high target hlong] at hmono
  · rw [mapLinear_of_short source target hsource hlong]
    exact htarget

theorem mapLinear_mapLinear (htarget : Number.epsilon < target.length)
    (hp : Number.epsilon < source.length ∨ p = source.low) :
    target.mapLinear source (source.mapLinear target p) = p := by
  rcases hp with hsource | rfl
  · have hlength := (length_pos_of_long hsource).ne'
    have hdrawn := (length_pos_of_long htarget).ne'
    rw [mapLinear_of_long target source htarget, mapLinear_of_long source target hsource]
    field_simp
    ring
  · rw [mapLinear_low, mapLinear_low]

theorem reaches_mapLinear (hkind : target.kind = source.kind)
    (hsource : Number.epsilon < source.length) (htarget : target.low < target.high) (p : α) :
    target.reaches (source.mapLinear target p) = source.reaches p := by
  have hmono := strictMono_mapLinear hsource htarget
  have hhigh := mapLinear_high target hsource
  unfold reaches
  simp only [hkind, ← hhigh, hmono.le_iff_le, hmono.lt_iff_lt]

theorem startsBy_mapLinear (hkind : target.kind = source.kind)
    (hsource : Number.epsilon < source.length) (htarget : target.low < target.high) (p : α) :
    target.StartsBy (source.mapLinear target p) ↔ source.StartsBy p := by
  have hmono := strictMono_mapLinear hsource htarget
  unfold StartsBy
  simp only [hkind, ← mapLinear_low source target, hmono.le_iff_le, hmono.lt_iff_lt]

end AxisPart

/-! ### Rows -/

section Rows

variable {β : Type}

variable {part source target : β → AxisPart α} {first second t gap : β}
  {row rest before after : List β} {p p' : α}

namespace IsRow

/-- A part ends before or where every later part begins. -/
theorem high_le_low (h : IsRow part (before ++ t :: after)) :
    ∀ b ∈ before, (part b).high ≤ (part t).low := by
  induction before with
  | nil => simp
  | cons first rest ih =>
      intro b hb
      rcases List.mem_cons.mp hb with rfl | hrest
      · cases rest with
        | nil => exact h.head_meets.low_eq.ge
        | cons second rest =>
            have hlater := ih h.tail second List.mem_cons_self
            have hsecond := h.low_le_high second (by simp)
            exact h.head_meets.low_eq.ge.trans (hsecond.trans hlater)
      · exact ih h.tail b hrest

theorem meets_of_split (h : IsRow part (before ++ gap :: t :: after)) :
    (part gap).Meets (part t) :=
  (List.isChain_cons_cons.mp h.meets.right_of_append).1

/-- Behind a part that is no point, a coordinate belongs to none of the parts before. -/
theorem not_reaches (h : IsRow part (before ++ gap :: t :: after))
    (hgap : (part gap).low < (part gap).high) (hp : (part t).StartsBy p) :
    ∀ b ∈ before ++ [gap], (part b).reaches p = false := by
  have hmeets := h.meets_of_split
  intro b hb
  rcases List.mem_append.mp hb with hbefore | hlast
  · apply AxisPart.not_reaches_of_high_lt
    calc (part b).high ≤ (part gap).low := h.high_le_low b hbefore
      _ < (part gap).high := hgap
      _ = (part t).low := hmeets.low_eq.symm
      _ ≤ p := hp.low_le
  · rw [List.mem_singleton.mp hlast]
    exact (hmeets.startsBy_iff p).mp hp

end IsRow

theorem locate_of_not_reaches (second : β) (rest : List β) (h : (part first).reaches p = false) :
    locate part p first (second :: rest) = locate part p second rest := by
  rw [locate, h, if_neg Bool.false_ne_true]

/-- The part that is found is the first one that reaches the coordinate, or the last one. -/
theorem locate_eq (h : first :: rest = before ++ t :: after)
    (hbefore : ∀ b ∈ before, (part b).reaches p = false)
    (hafter : after = [] ∨ (part t).reaches p = true) : locate part p first rest = t := by
  induction before generalizing first rest with
  | nil =>
      obtain ⟨rfl, rfl⟩ := List.cons_eq_cons.mp h
      cases rest with
      | nil => rfl
      | cons second rest =>
          have hreaches := hafter.resolve_left (List.cons_ne_nil second rest)
          rw [locate, if_pos hreaches]
  | cons head before ih =>
      obtain ⟨rfl, hrest⟩ := List.cons_eq_cons.mp h
      have hhead := hbefore first List.mem_cons_self
      cases rest with
      | nil => simp at hrest
      | cons second rest =>
          rw [locate_of_not_reaches second rest hhead]
          exact ih hrest fun b hb => hbefore b (List.mem_cons_of_mem first hb)

/-- A thing is the first of a list, or there is one right before it. -/
theorem exists_split_of_mem (ht : t ∈ row) :
    (∃ after, row = t :: after) ∨ ∃ before gap after, row = before ++ gap :: t :: after := by
  obtain ⟨before, after, rfl⟩ := List.append_of_mem ht
  rcases List.eq_nil_or_concat before with rfl | ⟨earlier, gap, rfl⟩
  · exact .inl ⟨after, rfl⟩
  · exact .inr ⟨earlier, gap, after, by simp⟩

theorem locate_first (h : (part first).reaches p = true) : locate part p first rest = first :=
  locate_eq (List.nil_append (first :: rest)).symm (by simp) (.inr h)

/-- What is found after others is reached, and none of those before is. -/
theorem locate_after (h : first :: rest = before ++ gap :: t :: after)
    (hbefore : ∀ b ∈ before ++ [gap], (part b).reaches p = false)
    (ht : (part t).reaches p = true) : locate part p first rest = t := by
  have hsplit : first :: rest = (before ++ [gap]) ++ t :: after := by
    rw [h, List.append_assoc, List.singleton_append]
  exact locate_eq hsplit hbefore (.inr ht)

theorem locate_mem (part : β → AxisPart α) (p : α) (first : β) (rest : List β) :
    locate part p first rest ∈ first :: rest := by
  induction rest generalizing first with
  | nil => exact List.mem_cons_self
  | cons second rest ih =>
      rw [locate]
      split
      · exact List.mem_cons_self
      · exact List.mem_cons_of_mem first (ih second)

/-- A coordinate within the row lies between the bounds of its part. -/
theorem IsRow.locate_bounds (h : IsRow part (first :: rest)) (hlow : (part first).low ≤ p)
    (hhigh : ∃ b ∈ first :: rest, p ≤ (part b).high) :
    (part (locate part p first rest)).low ≤ p ∧ p ≤ (part (locate part p first rest)).high := by
  induction rest generalizing first with
  | nil =>
      obtain ⟨b, hb, hhigh⟩ := hhigh
      obtain rfl := List.mem_singleton.mp hb
      exact ⟨hlow, hhigh⟩
  | cons second rest ih =>
      rw [locate]
      split
      · next hreaches => exact ⟨hlow, AxisPart.le_high_of_reaches hreaches⟩
      · next hpast =>
          have hstart := AxisPart.high_le_of_not_reaches (Bool.not_eq_true _ ▸ hpast)
          rw [← h.head_meets.low_eq] at hstart
          apply ih h.tail hstart
          obtain ⟨b, hb, hhigh⟩ := hhigh
          rcases List.mem_cons.mp hb with rfl | hrest
          · refine ⟨second, List.mem_cons_self, ?_⟩
            calc p ≤ (part b).high := hhigh
              _ = (part second).low := h.head_meets.low_eq.symm
              _ ≤ (part second).high := h.tail.head_low_le
          · exact ⟨b, hrest, hhigh⟩

/-! ### From one row to another -/

/-- Sends a coordinate by the linear map of the part it belongs to. -/
def mapThrough (source target : β → AxisPart α) (first : β) (rest : List β) (p : α) : α :=
  let t := locate source p first rest
  (source t).mapLinear (target t) p

theorem mapThrough_nil (source target : β → AxisPart α) (first : β) (p : α) :
    mapThrough source target first [] p = (source first).mapLinear (target first) p := rfl

theorem mapThrough_of_reaches (target : β → AxisPart α) (second : β) (rest : List β)
    (h : (source first).reaches p = true) :
    mapThrough source target first (second :: rest) p =
      (source first).mapLinear (target first) p := by
  unfold mapThrough
  rw [locate_first h]

theorem mapThrough_of_not_reaches (target : β → AxisPart α) (second : β) (rest : List β)
    (h : (source first).reaches p = false) :
    mapThrough source target first (second :: rest) p = mapThrough source target second rest p := by
  unfold mapThrough
  rw [locate_of_not_reaches second rest h]

/-- What does not lie before the first part is not sent before it. -/
theorem low_le_mapThrough (hsource : IsRow source (first :: rest))
    (htarget : IsRow target (first :: rest)) (hp : (source first).low ≤ p) :
    (target first).low ≤ mapThrough source target first rest p := by
  induction rest generalizing first with
  | nil => exact AxisPart.low_le_mapLinear hsource.head_low_le htarget.head_low_le hp
  | cons second rest ih =>
      cases hreaches : (source first).reaches p with
      | true =>
          rw [mapThrough_of_reaches target second rest hreaches]
          exact AxisPart.low_le_mapLinear hsource.head_low_le htarget.head_low_le hp
      | false =>
          have hstart := AxisPart.high_le_of_not_reaches hreaches
          rw [← hsource.head_meets.low_eq] at hstart
          rw [mapThrough_of_not_reaches target second rest hreaches]
          calc (target first).low ≤ (target first).high := htarget.head_low_le
            _ = (target second).low := htarget.head_meets.low_eq.symm
            _ ≤ _ := ih hsource.tail htarget.tail hstart

/-- The map keeps the order of all coordinates. -/
theorem monotone_mapThrough (hsource : IsRow source (first :: rest))
    (htarget : IsRow target (first :: rest)) : Monotone (mapThrough source target first rest) := by
  induction rest generalizing first with
  | nil => exact AxisPart.monotone_mapLinear hsource.head_low_le htarget.head_low_le
  | cons second rest ih =>
      intro p p' hp
      cases hlater : (source first).reaches p' with
      | true =>
          rw [mapThrough_of_reaches target second rest (AxisPart.reaches_of_le hlater hp),
            mapThrough_of_reaches target second rest hlater]
          exact AxisPart.monotone_mapLinear hsource.head_low_le htarget.head_low_le hp
      | false =>
          rw [mapThrough_of_not_reaches target second rest hlater]
          cases hreaches : (source first).reaches p with
          | true =>
              -- The two coordinates lie on different sides of the bound between the parts.
              have hstart := AxisPart.high_le_of_not_reaches hlater
              rw [← hsource.head_meets.low_eq] at hstart
              rw [mapThrough_of_reaches target second rest hreaches]
              calc (source first).mapLinear (target first) p
                  ≤ (target first).high :=
                    AxisPart.mapLinear_le_high hsource.head_low_le htarget.head_low_le
                      (AxisPart.le_high_of_reaches hreaches)
                _ = (target second).low := htarget.head_meets.low_eq.symm
                _ ≤ _ := low_le_mapThrough hsource.tail htarget.tail hstart
          | false =>
              rw [mapThrough_of_not_reaches target second rest hreaches]
              exact ih hsource.tail htarget.tail hp

/-- The lower bound of the row goes to the lower bound. -/
theorem mapThrough_low (target : β → AxisPart α) (rest : List β)
    (hlong : (source first).low < (source first).high) :
    mapThrough source target first rest (source first).low = (target first).low := by
  cases rest with
  | nil => exact AxisPart.mapLinear_low _ _
  | cons second rest =>
      rw [mapThrough_of_reaches target second rest (AxisPart.reaches_low hlong)]
      exact AxisPart.mapLinear_low _ _

/-- The upper bound of every part goes to its upper bound. -/
theorem mapThrough_high (hsource : IsRow source (first :: rest))
    (htarget : IsRow target (first :: rest))
    (hlong : ∀ b ∈ first :: rest, Number.epsilon < (source b).length)
    (ht : t ∈ first :: rest) :
    mapThrough source target first rest (source t).high = (target t).high := by
  have hfirst := hlong first List.mem_cons_self
  induction rest generalizing first with
  | nil =>
      obtain rfl := List.mem_singleton.mp ht
      exact AxisPart.mapLinear_high _ hfirst
  | cons second rest ih =>
      have hlater : ∀ b ∈ second :: rest, Number.epsilon < (source b).length :=
        fun b hb => hlong b (List.mem_cons_of_mem first hb)
      have hsecond := hlater second List.mem_cons_self
      rcases List.mem_cons.mp ht with rfl | ht
      · cases hreaches : (source t).reaches (source t).high with
        | true =>
            rw [mapThrough_of_reaches target second rest hreaches]
            exact AxisPart.mapLinear_high _ hfirst
        | false =>
            rw [mapThrough_of_not_reaches target second rest hreaches,
              ← hsource.head_meets.low_eq, ← htarget.head_meets.low_eq]
            exact mapThrough_low target rest (AxisPart.low_lt_high_of_long hsecond)
      · have hpast : (source first).high < (source t).high := by
          obtain ⟨before, after, hsplit⟩ := List.append_of_mem ht
          have hrow : IsRow source ((first :: before) ++ t :: after) := by
            rw [List.cons_append, ← hsplit]
            exact hsource
          exact (hrow.high_le_low first List.mem_cons_self).trans_lt
            (AxisPart.low_lt_high_of_long (hlater t ht))
        rw [mapThrough_of_not_reaches target second rest (AxisPart.not_reaches_of_high_lt hpast)]
        exact ih hsource.tail htarget.tail hlater ht hsecond

/-- The two rows have the same kinds, and a part that a coordinate belongs to is long, unless the
coordinate is its lower bound. -/
structure IsFaithfulAt (source target : β → AxisPart α) (first : β) (rest : List β) (p : α) :
    Prop where
  kind_eq : ∀ b ∈ first :: rest, (target b).kind = (source b).kind
  long : ∀ b ∈ first :: rest, Number.epsilon < (target b).length
  fits : Number.epsilon < (source (locate source p first rest)).length ∨
    p = (source (locate source p first rest)).low

theorem IsFaithfulAt.tail (h : IsFaithfulAt source target first (second :: rest) p)
    (hreaches : (source first).reaches p = false) : IsFaithfulAt source target second rest p := by
  have hlocate := locate_of_not_reaches second rest hreaches
  exact ⟨fun b hb => h.kind_eq b (List.mem_cons_of_mem first hb),
    fun b hb => h.long b (List.mem_cons_of_mem first hb), hlocate ▸ h.fits⟩

/-- What belongs to the first part or a later one is sent to such a place. -/
theorem startsBy_mapThrough (hsource : IsRow source (first :: rest))
    (htarget : IsRow target (first :: rest)) (h : IsFaithfulAt source target first rest p)
    (hp : (source first).StartsBy p) :
    (target first).StartsBy (mapThrough source target first rest p) := by
  have hkind := h.kind_eq first List.mem_cons_self
  have hlow := AxisPart.low_lt_high_of_long (h.long first List.mem_cons_self)
  have hheld : Number.epsilon < (source first).length ∨ p = (source first).low →
      (target first).StartsBy ((source first).mapLinear (target first) p) := by
    rintro (hlong | rfl)
    · exact (AxisPart.startsBy_mapLinear hkind hlong hlow p).mpr hp
    · rw [AxisPart.mapLinear_low]
      unfold AxisPart.StartsBy at *
      rw [hkind]
      cases hsame : (source first).kind with
      | fixed => exact le_rfl
      | proportional =>
          rw [hsame] at hp
          exact absurd hp (lt_irrefl _)
  cases rest with
  | nil => exact hheld h.fits
  | cons second rest =>
      cases hreaches : (source first).reaches p with
      | true =>
          have hfits := h.fits
          rw [locate_first hreaches] at hfits
          rw [mapThrough_of_reaches target second rest hreaches]
          exact hheld hfits
      | false =>
          have hstart := AxisPart.high_le_of_not_reaches hreaches
          rw [← hsource.head_meets.low_eq] at hstart
          rw [mapThrough_of_not_reaches target second rest hreaches]
          apply AxisPart.startsBy_of_low_lt
          calc (target first).low < (target first).high := hlow
            _ = (target second).low := htarget.head_meets.low_eq.symm
            _ ≤ _ := low_le_mapThrough hsource.tail htarget.tail hstart

/-- The map the other way undoes the map. -/
theorem mapThrough_mapThrough (hsource : IsRow source (first :: rest))
    (htarget : IsRow target (first :: rest)) (h : IsFaithfulAt source target first rest p) :
    mapThrough target source first rest (mapThrough source target first rest p) = p := by
  induction rest generalizing first with
  | nil => exact AxisPart.mapLinear_mapLinear (h.long first List.mem_cons_self) h.fits
  | cons second rest ih =>
      have hfirst := h.long first List.mem_cons_self
      cases hreaches : (source first).reaches p with
      | true =>
          have hfits := h.fits
          rw [locate_first hreaches] at hfits
          have hsame :
              (target first).reaches ((source first).mapLinear (target first) p) = true := by
            rcases hfits with hlong | rfl
            · rw [AxisPart.reaches_mapLinear (h.kind_eq first List.mem_cons_self) hlong
                (AxisPart.low_lt_high_of_long hfirst)]
              exact hreaches
            · rw [AxisPart.mapLinear_low]
              exact AxisPart.reaches_low (AxisPart.low_lt_high_of_long hfirst)
          rw [mapThrough_of_reaches target second rest hreaches,
            mapThrough_of_reaches source second rest hsame]
          exact AxisPart.mapLinear_mapLinear hfirst hfits
      | false =>
          have hlater := h.tail hreaches
          have hstart : (target second).StartsBy (mapThrough source target second rest p) :=
            startsBy_mapThrough hsource.tail htarget.tail hlater
              ((hsource.head_meets.startsBy_iff p).mpr hreaches)
          have hpast := (htarget.head_meets.startsBy_iff _).mp hstart
          rw [mapThrough_of_not_reaches target second rest hreaches,
            mapThrough_of_not_reaches source second rest hpast]
          exact ih hsource.tail htarget.tail hlater

end Rows

/-! ### A laid out axis -/

namespace AxisScaling

variable {s : AxisScaling α} {t gap : Segment α} {p q : α}

theorem transform_eq (s : AxisScaling α) :
    s.transform = mapThrough Segment.reference Segment.drawn s.first s.rest := rfl

theorem inverse_eq (s : AxisScaling α) :
    s.inverse = mapThrough Segment.drawn Segment.reference s.first s.rest := rfl

/-- No part counts as a point in the reference. -/
def IsLong (s : AxisScaling α) : Prop :=
  ∀ t ∈ s.segments, Number.epsilon < t.reference.length

namespace IsLaidOut

variable (h : s.IsLaidOut)
include h

theorem monotone_transform : Monotone s.transform :=
  monotone_mapThrough h.reference h.drawn

theorem transform_high (hlong : s.IsLong) (ht : t ∈ s.segments) :
    s.transform t.high = t.drawnHigh :=
  mapThrough_high h.reference h.drawn hlong ht

theorem map_transform_bounds (hlong : s.IsLong) :
    s.referenceBounds.map s.transform = s.drawnBounds := by
  have hlow : s.transform s.first.low = s.first.drawnLow :=
    mapThrough_low _ _ (h.low_lt_high s.first List.mem_cons_self)
  unfold referenceBounds drawnBounds
  rw [List.map_cons, hlow, List.map_map]
  congr 1
  apply List.map_congr_left
  intro t ht
  exact h.transform_high hlong ht

/-- What is drawn within a part, or at its lower bound, is found again. -/
theorem transform_inverse (hlong : s.IsLong)
    (hfits : Number.epsilon < (locate Segment.drawn q s.first s.rest).drawn.length ∨
      q = (locate Segment.drawn q s.first s.rest).drawnLow) : s.transform (s.inverse q) = q :=
  mapThrough_mapThrough h.drawn h.reference ⟨fun _ _ => rfl, hlong, hfits⟩

theorem inverse_transform (hlong : s.IsLong)
    (hdrawn : ∀ t ∈ s.segments, Number.epsilon < t.drawn.length) (p : α) :
    s.inverse (s.transform p) = p :=
  mapThrough_mapThrough h.reference h.drawn
    ⟨fun _ _ => rfl, hdrawn, .inl (hlong _ (locate_mem Segment.reference p s.first s.rest))⟩

/-- A coordinate between the ends of the drawn axis lies within its part, or in a point. -/
theorem fits_of_bounds (hdrawn : ∀ t ∈ s.segments, t.drawn.length ≠ 0 →
      Number.epsilon < t.drawn.length) {stop : α} (hstop : s.drawnBounds.getLast? = some stop)
    (hlow : s.first.drawnLow ≤ q) (hhigh : q ≤ stop) :
    Number.epsilon < (locate Segment.drawn q s.first s.rest).drawn.length ∨
      q = (locate Segment.drawn q s.first s.rest).drawnLow := by
  have hreached : ∃ b ∈ s.first :: s.rest, q ≤ b.drawn.high := by
    rcases List.mem_cons.mp (List.mem_of_getLast? hstop) with rfl | hmem
    · exact ⟨s.first, List.mem_cons_self, hhigh.trans h.drawn.head_low_le⟩
    · obtain ⟨b, hb, rfl⟩ := List.mem_map.mp hmem
      exact ⟨b, hb, hhigh⟩
  obtain ⟨hbelow, habove⟩ := h.drawn.locate_bounds hlow hreached
  by_cases hpoint : (locate Segment.drawn q s.first s.rest).drawn.length = 0
  · right
    apply le_antisymm _ hbelow
    exact habove.trans (sub_eq_zero.mp hpoint).le
  · exact .inl (hdrawn _ (locate_mem Segment.drawn q s.first s.rest) hpoint)

/-- A coordinate of a fixed part belongs to it, bounds included. -/
theorem locate_reference (ht : t ∈ s.segments) (hkind : t.kind = .fixed) (hlow : t.low ≤ p)
    (hhigh : p ≤ t.high) : locate Segment.reference p s.first s.rest = t := by
  have hreaches : t.reference.reaches p = true := AxisPart.reaches_of_fixed hkind hhigh
  rcases exists_split_of_mem ht with ⟨after, hsplit⟩ | ⟨before, gap, after, hsplit⟩
  · obtain ⟨rfl, -⟩ := List.cons_eq_cons.mp hsplit
    exact locate_first hreaches
  · have hrow : IsRow Segment.reference (before ++ gap :: t :: after) := hsplit ▸ h.reference
    have hgap : gap.low < gap.high := h.low_lt_high gap (by rw [hsplit]; simp)
    exact locate_after hsplit (hrow.not_reaches hgap (AxisPart.startsBy_of_fixed hkind hlow))
      hreaches

/-- The place where a coordinate of a fixed part is drawn belongs to the part as it is drawn, unless
it is the end of a part that has shrunk to a point. -/
theorem locate_drawn (hlong : s.IsLong) (ht : t ∈ s.segments) (hkind : t.kind = .fixed)
    (hdrawn : Number.epsilon < t.drawn.length) (hlow : t.low ≤ p) (hhigh : p ≤ t.high)
    (hgaps : ∀ gap ∈ s.segments, gap.kind = .proportional → gap.drawn.length = 0 → p ≠ gap.high) :
    locate Segment.drawn (t.reference.mapLinear t.drawn p) s.first s.rest = t := by
  have hmono := AxisPart.strictMono_mapLinear (hlong t ht) (AxisPart.low_lt_high_of_long hdrawn)
  have hstart := AxisPart.mapLinear_low t.reference t.drawn
  have hreaches : t.drawn.reaches (t.reference.mapLinear t.drawn p) = true := by
    apply AxisPart.reaches_of_fixed hkind
    exact (hmono.monotone hhigh).trans (AxisPart.mapLinear_high t.drawn (hlong t ht)).le
  rcases exists_split_of_mem ht with ⟨after, hsplit⟩ | ⟨before, gap, after, hsplit⟩
  · obtain ⟨rfl, -⟩ := List.cons_eq_cons.mp hsplit
    exact locate_first hreaches
  · have hrow : IsRow Segment.drawn (before ++ gap :: t :: after) := hsplit ▸ h.drawn
    have hreference : IsRow Segment.reference (before ++ gap :: t :: after) := hsplit ▸ h.reference
    have hgap : gap ∈ s.segments := by
      rw [hsplit]
      simp
    apply locate_after hsplit _ hreaches
    by_cases hpoint : gap.drawn.length = 0
    · -- Both fixed parts are drawn up to the point, so the coordinate has to lie behind it.
      have hproportional : gap.kind = .proportional :=
        SegmentKind.eq_of_next_eq (hreference.meets_of_split.kind_eq.symm.trans hkind)
      have hbehind : t.low < p := by
        apply lt_of_le_of_ne hlow
        intro heq
        exact hgaps gap hgap hproportional hpoint
          (heq.symm.trans hreference.meets_of_split.low_eq)
      have hlater : t.drawnLow < t.reference.mapLinear t.drawn p :=
        hstart.symm.trans_lt (hmono hbehind)
      have hall : IsRow Segment.drawn ((before ++ [gap]) ++ t :: after) := by
        rw [List.append_assoc, List.singleton_append]
        exact hrow
      intro b hb
      exact AxisPart.not_reaches_of_high_lt ((hall.high_le_low b hb).trans_lt hlater)
    · have hpositive : gap.drawnLow < gap.drawnHigh := by
        apply lt_of_le_of_ne (h.drawn.low_le_high gap hgap)
        intro heq
        exact hpoint (sub_eq_zero.mpr heq.symm)
      apply hrow.not_reaches hpositive
      exact AxisPart.startsBy_of_fixed hkind (hstart.symm.trans_le (hmono.monotone hlow))

/-- Fixed parts are found again. -/
theorem inverse_transform_of_fixed (hlong : s.IsLong) (ht : t ∈ s.segments)
    (hkind : t.kind = .fixed) (hdrawn : Number.epsilon < t.drawn.length) (hlow : t.low ≤ p)
    (hhigh : p ≤ t.high)
    (hgaps : ∀ gap ∈ s.segments, gap.kind = .proportional → gap.drawn.length = 0 → p ≠ gap.high) :
    s.inverse (s.transform p) = p := by
  have htransform : s.transform p = t.reference.mapLinear t.drawn p := by
    rw [transform_eq, mapThrough, h.locate_reference ht hkind hlow hhigh]
  rw [htransform, inverse_eq, mapThrough, h.locate_drawn hlong ht hkind hdrawn hlow hhigh hgaps]
  exact AxisPart.mapLinear_mapLinear hdrawn (.inl (hlong t ht))

/-- The end of a part that has shrunk to a point is drawn where the part begins, and is read as the
end of the fixed part before it. -/
theorem inverse_transform_of_point (hlong : s.IsLong) (hfirst : s.first.kind = .fixed)
    (hfixed : ∀ t ∈ s.segments, t.kind = .fixed → Number.epsilon < t.drawn.length)
    (hgap : gap ∈ s.segments) (hkind : gap.kind = .proportional) (hpoint : gap.drawn.length = 0) :
    s.inverse (s.transform gap.high) = gap.low := by
  rcases exists_split_of_mem hgap with ⟨after, hsplit⟩ | ⟨before, f, after, hsplit⟩
  · obtain ⟨rfl, -⟩ := List.cons_eq_cons.mp hsplit
    rw [hkind] at hfirst
    cases hfirst
  · have hrow : IsRow Segment.drawn (before ++ f :: gap :: after) := hsplit ▸ h.drawn
    have hreference : IsRow Segment.reference (before ++ f :: gap :: after) := hsplit ▸ h.reference
    have hfkind : f.kind = .fixed :=
      SegmentKind.eq_of_next_eq (hrow.meets_of_split.kind_eq.symm.trans hkind)
    have hlonger : Number.epsilon < f.drawn.length := hfixed f (by rw [hsplit]; simp) hfkind
    have hplace : s.transform gap.high = f.drawnHigh := by
      calc s.transform gap.high = gap.drawnHigh := h.transform_high hlong hgap
        _ = gap.drawnLow := sub_eq_zero.mp hpoint
        _ = f.drawnHigh := hrow.meets_of_split.low_eq
    have hlocate : locate Segment.drawn f.drawnHigh s.first s.rest = f := by
      apply locate_eq hsplit _ (.inr (AxisPart.reaches_of_fixed hfkind le_rfl))
      intro b hb
      apply AxisPart.not_reaches_of_high_lt
      exact (hrow.high_le_low b hb).trans_lt (AxisPart.low_lt_high_of_long hlonger)
    rw [hplace, inverse_eq, mapThrough, hlocate]
    calc f.drawn.mapLinear f.reference f.drawnHigh = f.high :=
          AxisPart.mapLinear_high f.reference hlonger
      _ = gap.low := hreference.meets_of_split.low_eq.symm

end IsLaidOut

end AxisScaling

namespace SliceValues

variable {size : Size α} {xs ys : List α} {values : SliceValues α}

/-- Of an axis whose parts do not count as points, drawn or not, the map keeps the order, sends
bounds to bounds and finds all that is drawn. If no part is drawn as a point, it is undone
everywhere. -/
theorem layout_maps (hvalues : make size xs ys = .ok values) (axis : Axis) (start : α) {length : α}
    (hlength : 0 ≤ length)
    (hreference : ∀ t ∈ (values.layout axis start length).segments,
      Number.epsilon < t.reference.length)
    (hdrawn : ∀ t ∈ (values.layout axis start length).segments,
      t.drawn.length ≠ 0 → Number.epsilon < t.drawn.length) :
    let s := values.layout axis start length
    Monotone s.transform ∧ s.referenceBounds.map s.transform = s.drawnBounds ∧
      (∀ q, start ≤ q → q ≤ start + length → s.transform (s.inverse q) = q) ∧
      ((∀ t ∈ s.segments, t.drawn.length ≠ 0) →
        ∀ p, s.inverse (s.transform p) = p ∧ s.transform (s.inverse p) = p) := by
  intro s
  have hchain := isChain_bounds hvalues axis
  have hlaid : s.IsLaidOut := AxisScaling.isLaidOut_compute hchain start hlength
  have hstart : s.first.drawnLow = start := (AxisScaling.first_compute _ _ start length).2
  have hstop : s.drawnBounds.getLast? = some (start + length) :=
    AxisScaling.getLast?_drawnBounds_compute hchain start hlength
  refine ⟨hlaid.monotone_transform, hlaid.map_transform_bounds hreference, ?_, ?_⟩
  · intro q hlow hhigh
    apply hlaid.transform_inverse hreference
    exact hlaid.fits_of_bounds hdrawn hstop (hstart.trans_le hlow) hhigh
  · intro hpositive p
    have hall : ∀ t ∈ s.segments, Number.epsilon < t.drawn.length :=
      fun t ht => hdrawn t ht (hpositive t ht)
    refine ⟨hlaid.inverse_transform hreference hall p, ?_⟩
    exact hlaid.transform_inverse hreference (.inl (hall _ (locate_mem Segment.drawn p _ _)))

section Rational

attribute [local instance] ExactNumber.rational

/-- A panel with three cuts along the y axis. -/
def panel : SliceValues ℚ := ⟨⟨100, 60⟩, [10, 90], [25, 40, 55]⟩

/-- There is room for all four parts of the panel. -/
theorem layout_maps_panel :
    make (⟨100, 60⟩ : Size ℚ) [10, 90] [25, 40, 55] = .ok panel ∧
      let s := panel.layout .y (-7) 90
      (∀ t ∈ s.segments, Number.epsilon < t.reference.length) ∧
        (∀ t ∈ s.segments, t.drawn.length ≠ 0 → Number.epsilon < t.drawn.length) ∧
        (∀ t ∈ s.segments, t.drawn.length ≠ 0) ∧
        Monotone s.transform ∧ s.referenceBounds.map s.transform = s.drawnBounds ∧
        (∀ q, -7 ≤ q → q ≤ -7 + 90 → s.transform (s.inverse q) = q) ∧
        ∀ p, s.inverse (s.transform p) = p ∧ s.transform (s.inverse p) = p := by
  have hvalues : make (⟨100, 60⟩ : Size ℚ) [10, 90] [25, 40, 55] = .ok panel := rfl
  have hlength : (0 : ℚ) ≤ 90 := by decide +kernel
  have hreference : ∀ t ∈ (panel.layout .y (-7) 90).segments,
      Number.epsilon < t.reference.length := by decide +kernel
  have hdrawn : ∀ t ∈ (panel.layout .y (-7) 90).segments,
      t.drawn.length ≠ 0 → Number.epsilon < t.drawn.length := by decide +kernel
  have hpositive : ∀ t ∈ (panel.layout .y (-7) 90).segments, t.drawn.length ≠ 0 := by
    decide +kernel
  obtain ⟨hmono, hbounds, hfound, hundone⟩ :=
    layout_maps hvalues .y (-7) hlength hreference hdrawn
  exact ⟨hvalues, hreference, hdrawn, hpositive, hmono, hbounds, hfound, hundone hpositive⟩

end Rational

/-- What lies in a fixed part, bounds included, is found again where it is drawn, unless it is the
end of a proportional part that has shrunk to a point. The end of such a part is read as its
beginning, which is the end of the fixed part before. -/
theorem layout_keeps_fixed (hvalues : make size xs ys = .ok values) (axis : Axis)
    (hcuts : (values.axis axis).2 ≠ []) (start : α) {length : α} (hlength : 0 < length)
    (hreference : ∀ t ∈ (values.layout axis start length).segments,
      Number.epsilon < t.reference.length)
    (hfixed : ∀ t ∈ (values.layout axis start length).segments,
      t.kind = .fixed → Number.epsilon < t.drawn.length) :
    let s := values.layout axis start length
    (∀ t ∈ s.segments, t.kind = .fixed → ∀ p, t.low ≤ p → p ≤ t.high →
        (∀ gap ∈ s.segments, gap.kind = .proportional → gap.drawn.length = 0 → p ≠ gap.high) →
        s.inverse (s.transform p) = p) ∧
      ∀ gap ∈ s.segments, gap.kind = .proportional → gap.drawn.length = 0 →
        s.inverse (s.transform gap.high) = gap.low := by
  intro s
  have hlaid : s.IsLaidOut :=
    AxisScaling.isLaidOut_compute (isChain_bounds hvalues axis) start hlength.le
  have hfirst : s.first.kind = .fixed := by
    rw [show s.first.kind = _ from (AxisScaling.first_compute _ _ start length).1, if_neg hcuts]
  constructor
  · intro t ht hkind p hlow hhigh hgaps
    exact hlaid.inverse_transform_of_fixed hreference ht hkind (hfixed t ht hkind) hlow hhigh hgaps
  · intro gap hgap hkind hpoint
    exact hlaid.inverse_transform_of_point hreference hfirst hfixed hgap hkind hpoint

section Rational

attribute [local instance] ExactNumber.rational

/-- A button with a cap at both ends of the x axis. -/
def button : SliceValues ℚ := ⟨⟨100, 100⟩, [20, 80], []⟩

/-- The button drawn so short that nothing is left between its caps. -/
theorem layout_keeps_fixed_button :
    make (⟨100, 100⟩ : Size ℚ) [20, 80] [] = .ok button ∧
      let s := button.layout .x 0 40
      (∀ t ∈ s.segments, Number.epsilon < t.reference.length) ∧
        (∀ t ∈ s.segments, t.kind = .fixed → Number.epsilon < t.drawn.length) ∧
        (∀ t ∈ s.segments, t.kind = .fixed → ∀ p, t.low ≤ p → p ≤ t.high →
          (∀ gap ∈ s.segments, gap.kind = .proportional → gap.drawn.length = 0 → p ≠ gap.high) →
          s.inverse (s.transform p) = p) ∧
        ∀ gap ∈ s.segments, gap.kind = .proportional → gap.drawn.length = 0 →
          s.inverse (s.transform gap.high) = gap.low := by
  have hvalues : make (⟨100, 100⟩ : Size ℚ) [20, 80] [] = .ok button := rfl
  have hlength : (0 : ℚ) < 40 := by decide +kernel
  have hreference : ∀ t ∈ (button.layout .x 0 40).segments,
      Number.epsilon < t.reference.length := by decide +kernel
  have hfixed : ∀ t ∈ (button.layout .x 0 40).segments,
      t.kind = .fixed → Number.epsilon < t.drawn.length := by decide +kernel
  exact ⟨hvalues, hreference, hfixed,
    layout_keeps_fixed hvalues .x (List.cons_ne_nil _ _) 0 hlength hreference hfixed⟩

/-- The second cap of the button is drawn from where the first one ends, and its beginning is read
as the end of the first one. -/
theorem layout_loses_cap :
    make (⟨100, 100⟩ : Size ℚ) [20, 80] [] = .ok button ∧
      let s := button.layout .x 0 40
      (∀ t ∈ s.segments, Number.epsilon < t.reference.length) ∧
        (∀ t ∈ s.segments, t.kind = .fixed → Number.epsilon < t.drawn.length) ∧
        (∃ t ∈ s.segments, t.kind = .fixed ∧ t.low ≤ 80 ∧ 80 ≤ t.high) ∧
        s.inverse (s.transform 80) = 20 :=
  ⟨rfl, by decide +kernel⟩

end Rational

end SliceValues

end PatternMarkup
