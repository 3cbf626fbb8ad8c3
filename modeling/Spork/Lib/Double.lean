import Mathlib

/-! Numbers as doubles: the nearest number of 53 significant bits, the even one of two. An
integer's is an integer, and integers of 53 bits at most are their own. -/
namespace Spork
namespace Double

/-- The nearest integer, the even one of two. -/
def halfEven (x : ℚ) : ℤ :=
  if Int.fract x < 1/2 then ⌊x⌋
  else if 1/2 < Int.fract x then ⌊x⌋+1
  else if ⌊x⌋%2 = 0 then ⌊x⌋ else ⌊x⌋+1

/-- What lies between two neighbouring doubles of a number's size. -/
def spacing (x : ℚ) : ℚ := 2^max (Int.log 2 |x|-52) (-1074)

/-- The double nearest to a number, of those that are finite. -/
def nearest (x : ℚ) : ℚ := halfEven (x/spacing x)*spacing x

/-- The nearest whole number of a unit, the even one of two. -/
def halfEvenDiv (n : ℤ) (unit : ℕ) : ℤ :=
  if 2*(n%unit) < unit ∨ (2*(n%unit) = unit ∧ n/unit%2 = 0) then n/unit else n/unit+1

/-- What lies between two neighbouring doubles of an integer's size, where that is more than one. -/
def unit (n : ℤ) : ℕ := 2^(n.natAbs.log2-52)

/-- The double nearest to an integer. -/
def ofInt (n : ℤ) : ℤ := halfEvenDiv n (unit n)*unit n

def add (a b : ℤ) : ℤ := ofInt (a+b)

def sub (a b : ℤ) : ℤ := ofInt (a-b)

def mul (a b : ℤ) : ℤ := ofInt (a*b)

theorem spacing_pos (x : ℚ) : 0 < spacing x := zpow_pos (by norm_num) _

theorem halfEven_intCast (n : ℤ) : halfEven n = n := by
  simp [halfEven]

theorem halfEven_div (n : ℤ) {u : ℕ} (hu : 0 < u) : halfEven ((n : ℚ)/u) = halfEvenDiv n u := by
  have hpos : (0 : ℚ) < u := Nat.cast_pos.mpr hu
  have hfloor : ⌊(n : ℚ)/u⌋ = n/u := Rat.floor_intCast_div_natCast n u
  have hfract : Int.fract ((n : ℚ)/u) = (n%u : ℤ)/u := by
    have hdiv : (n : ℚ) = (n/u : ℤ)*u+(n%u : ℤ) := by exact_mod_cast (Int.ediv_mul_add_emod n u).symm
    rw [Int.fract,hfloor,sub_eq_iff_eq_add,div_eq_iff hpos.ne',add_mul,div_mul_cancel₀ _ hpos.ne']
    linarith
  have hless : Int.fract ((n : ℚ)/u) < 1/2 ↔ 2*(n%u) < u := by
    rw [hfract,div_lt_div_iff₀ hpos two_pos]
    norm_cast
    omega
  have hmore : 1/2 < Int.fract ((n : ℚ)/u) ↔ (u : ℤ) < 2*(n%u) := by
    rw [hfract,div_lt_div_iff₀ two_pos hpos]
    norm_cast
    omega
  simp only [halfEven,halfEvenDiv,hfloor,hless,hmore]
  split_ifs <;> omega

theorem unit_pos (n : ℤ) : 0 < unit n := pow_pos two_pos _

theorem unit_of_lt {n : ℤ} (h : n.natAbs < 2^53) : unit n = 1 := by
  have hlog : n.natAbs.log2 < 53 := by
    rcases Nat.eq_zero_or_pos n.natAbs with hzero | hpos
    · simp [hzero]
    · exact (Nat.log2_lt hpos.ne').mpr h
  rw [unit,show n.natAbs.log2-52 = 0 by omega,pow_zero]

/-- Of a number with more bits there are at least 2^52 units. -/
theorem unit_mul_le {n : ℤ} (h : 2^53 ≤ n.natAbs) : 2 ≤ unit n ∧ 2^52*unit n ≤ n.natAbs := by
  have hlog : 53 ≤ n.natAbs.log2 := (Nat.le_log2 (by omega)).mpr h
  have hle : 2^n.natAbs.log2 ≤ n.natAbs := Nat.log2_self_le (by omega)
  constructor
  · exact le_self_pow₀ one_le_two (by omega)
  · rwa [unit,← pow_add,show 52+(n.natAbs.log2-52) = n.natAbs.log2 by omega]

/-- An integer of 53 bits at most is a double. -/
theorem ofInt_of_le {n : ℤ} (h : n.natAbs ≤ 2^53) : ofInt n = n := by
  rcases h.lt_or_eq with hlt | heq
  · simp [ofInt,halfEvenDiv,unit_of_lt hlt]
  · obtain hn | hn : n = 2^53 ∨ n = -2^53 := by omega
    all_goals rw [hn]; decide

theorem halfEvenDiv_between (n : ℤ) (u : ℕ) : n/u ≤ halfEvenDiv n u ∧ halfEvenDiv n u ≤ n/u+1 := by
  rw [halfEvenDiv]
  split_ifs <;> omega

/-- No double is passed by on the way to the nearest. -/
theorem le_ofInt {b n : ℤ} (hnonneg : 0 ≤ b) (hb : b ≤ 2^53) (h : b ≤ n) : b ≤ ofInt n := by
  rcases le_or_gt n.natAbs (2^53) with hle | hgt
  · rwa [ofInt_of_le hle]
  · obtain ⟨-,hunits⟩ := unit_mul_le hgt.le
    have hupos := unit_pos n
    have hdiv : 2^52 ≤ n/unit n := by
      refine (Int.le_ediv_iff_mul_le (by exact_mod_cast hupos)).mpr ?_
      omega
    have htwo := (unit_mul_le hgt.le).1
    calc b ≤ 2^52*2 := hb
      _ ≤ halfEvenDiv n (unit n)*unit n :=
        mul_le_mul (hdiv.trans (halfEvenDiv_between n _).1) (by exact_mod_cast htwo) (by norm_num)
          (by have := (halfEvenDiv_between n (unit n)).1; omega)

theorem ofInt_nonpos {n : ℤ} (h : n ≤ 0) : ofInt n ≤ 0 := by
  rcases h.lt_or_eq with hlt | rfl
  · have hupos : (0 : ℤ) < unit n := by exact_mod_cast unit_pos n
    have hdiv : n/unit n < 0 := Int.ediv_neg_of_neg_of_pos hlt hupos
    exact mul_nonpos_of_nonpos_of_nonneg (by have := (halfEvenDiv_between n (unit n)).2; omega) hupos.le
  · decide

theorem ofInt_pos {n : ℤ} : 0 < ofInt n ↔ 0 < n := by
  constructor
  · exact fun h => not_le.mp fun hle => (ofInt_nonpos hle).not_gt h
  · exact fun h => le_ofInt zero_le_one (by norm_num) h

/-- The nearest double to an integer is an integer. -/
theorem nearest_intCast (n : ℤ) : nearest n = ofInt n := by
  have habs : |(n : ℚ)| = (n.natAbs : ℚ) := by rw [Nat.cast_natAbs,Int.cast_abs]
  have hlog : Int.log 2 |(n : ℚ)| = (n.natAbs.log2 : ℤ) := by rw [habs,Int.log_natCast,Nat.log2_eq_log_two]
  rcases le_or_gt n.natAbs.log2 52 with hle | hgt
  · obtain ⟨k,hk⟩ : ∃ k : ℕ, max ((n.natAbs.log2 : ℤ)-52) (-1074) = -(k : ℤ) :=
      ⟨(-max ((n.natAbs.log2 : ℤ)-52) (-1074)).toNat,by omega⟩
    have hwhole : (n : ℚ)/spacing n = ((n*2^k : ℤ) : ℚ) := by
      rw [spacing,hlog,hk,zpow_neg,zpow_natCast,div_inv_eq_mul]
      push_cast
      rfl
    have hunit : unit n = 1 := by rw [unit,show n.natAbs.log2-52 = 0 by omega,pow_zero]
    have hself : ofInt n = n := by simp [ofInt,halfEvenDiv,hunit]
    rw [hself,nearest,hwhole,halfEven_intCast,← hwhole,div_mul_cancel₀ _ (spacing_pos n).ne']
  · have hspacing : spacing n = (unit n : ℕ) := by
      rw [spacing,hlog,show max ((n.natAbs.log2 : ℤ)-52) (-1074) = ((n.natAbs.log2-52 : ℕ) : ℤ) by omega,zpow_natCast,unit]
      push_cast
      rfl
    rw [nearest,hspacing,halfEven_div n (unit_pos n),ofInt]
    push_cast
    rfl

/-! ## Order -/

theorem halfEven_between (x : ℚ) : ⌊x⌋ ≤ halfEven x ∧ halfEven x ≤ ⌊x⌋+1 := by
  rw [halfEven]
  split_ifs <;> omega

theorem le_halfEven {n : ℤ} {x : ℚ} (h : n ≤ x) : n ≤ halfEven x :=
  (Int.le_floor.mpr h).trans (halfEven_between x).1

theorem halfEven_le {n : ℤ} {x : ℚ} (h : x ≤ n) : halfEven x ≤ n := by
  rcases (Int.floor_le_floor h).lt_or_eq with hlt | heq
  · rw [Int.floor_intCast] at hlt
    exact (halfEven_between x).2.trans hlt
  · rw [Int.floor_intCast] at heq
    have hwhole : x = n := le_antisymm h (heq ▸ Int.floor_le x)
    rw [hwhole,halfEven_intCast]

theorem halfEven_mono {x y : ℚ} (h : x ≤ y) : halfEven x ≤ halfEven y := by
  rcases (Int.floor_le_floor h).lt_or_eq with hlt | heq
  · exact (halfEven_between x).2.trans ((Int.add_one_le_iff.mpr hlt).trans (halfEven_between y).1)
  · have hfract : Int.fract x ≤ Int.fract y := by
      rw [Int.fract,Int.fract,heq]
      linarith
    rw [halfEven,halfEven,heq]
    split_ifs <;> first | omega | (exfalso; linarith)

/-- Not past a whole number of spacings, a number's double is not past it either. -/
theorem nearest_le {x b : ℚ} (hb : ∃ n : ℤ, b = n*spacing x) (h : x ≤ b) : nearest x ≤ b := by
  obtain ⟨n,rfl⟩ := hb
  have hdiv : x/spacing x ≤ n := (div_le_iff₀ (spacing_pos x)).mpr h
  exact mul_le_mul_of_nonneg_right (by exact_mod_cast halfEven_le hdiv) (spacing_pos x).le

theorem le_nearest {x b : ℚ} (hb : ∃ n : ℤ, b = n*spacing x) (h : b ≤ x) : b ≤ nearest x := by
  obtain ⟨n,rfl⟩ := hb
  have hdiv : n ≤ x/spacing x := (le_div_iff₀ (spacing_pos x)).mpr h
  exact mul_le_mul_of_nonneg_right (by exact_mod_cast le_halfEven hdiv) (spacing_pos x).le

/-- A power of two is a whole number of the spacings it is no less than. -/
theorem pow_whole {x : ℚ} {e : ℤ} (h : max (Int.log 2 |x|-52) (-1074) ≤ e) : ∃ n : ℤ, (2 : ℚ)^e = n*spacing x := by
  obtain ⟨k,hk⟩ := Int.le.dest h
  refine ⟨2^k,?_⟩
  push_cast
  rw [← hk,spacing,zpow_add₀ two_ne_zero,zpow_natCast,mul_comm]

/-- Of two numbers with different spacings, a power of two lies between. -/
theorem nearest_mono_of_pos {x y : ℚ} (hx : 0 < x) (h : x ≤ y) : nearest x ≤ nearest y := by
  have hy := hx.trans_le h
  have hlog : Int.log 2 |x| ≤ Int.log 2 |y| := by
    rw [abs_of_pos hx,abs_of_pos hy]
    exact Int.log_mono_right hx h
  rcases (max_le_max_right (-1074) (sub_le_sub_right hlog 52)).lt_or_eq with hlt | heq
  · have hbelow : x ≤ 2^Int.log 2 |y| := by
      have hsucc := Int.lt_zpow_succ_log_self one_lt_two |x|
      rw [abs_of_pos hx] at hsucc hlt
      exact hsucc.le.trans (zpow_le_zpow_right₀ one_le_two (by omega))
    have habove : (2 : ℚ)^Int.log 2 |y| ≤ y := by
      have hpow := Int.zpow_log_le_self one_lt_two (abs_pos.mpr hy.ne')
      rwa [abs_of_pos hy] at hpow ⊢
    exact (nearest_le (pow_whole (by omega)) hbelow).trans (le_nearest (pow_whole (by omega)) habove)
  · have hspacing : spacing x = spacing y := by rw [spacing,spacing,heq]
    rw [nearest,nearest,hspacing]
    refine mul_le_mul_of_nonneg_right ?_ (spacing_pos y).le
    exact_mod_cast halfEven_mono (div_le_div_of_nonneg_right h (spacing_pos y).le)

theorem nearest_mono_of_neg {x y : ℚ} (hy : y < 0) (h : x ≤ y) : nearest x ≤ nearest y := by
  have hx := h.trans_lt hy
  have hlog : Int.log 2 |y| ≤ Int.log 2 |x| := by
    rw [abs_of_neg hx,abs_of_neg hy]
    exact Int.log_mono_right (neg_pos.mpr hy) (neg_le_neg h)
  have hneg {x : ℚ} {e : ℤ} (h : max (Int.log 2 |x|-52) (-1074) ≤ e) : ∃ n : ℤ, -(2 : ℚ)^e = n*spacing x := by
    obtain ⟨n,hn⟩ := pow_whole h
    exact ⟨-n,by push_cast; rw [hn,neg_mul]⟩
  rcases (max_le_max_right (-1074) (sub_le_sub_right hlog 52)).lt_or_eq with hlt | heq
  · have habove : -(2 : ℚ)^Int.log 2 |x| ≤ y := by
      have hsucc := Int.lt_zpow_succ_log_self one_lt_two |y|
      have hle : |y| ≤ 2^Int.log 2 |x| := hsucc.le.trans (zpow_le_zpow_right₀ one_le_two (by omega))
      rw [abs_of_neg hy] at hle
      linarith
    have hbelow : x ≤ -(2 : ℚ)^Int.log 2 |x| := by
      have hpow : (2 : ℚ)^Int.log 2 |x| ≤ |x| := by exact_mod_cast Int.zpow_log_le_self one_lt_two (abs_pos.mpr hx.ne)
      have hself : |x| = -x := abs_of_neg hx
      linarith
    exact (nearest_le (hneg (by omega)) hbelow).trans (le_nearest (hneg (by omega)) habove)
  · have hspacing : spacing x = spacing y := by rw [spacing,spacing,heq]
    rw [nearest,nearest,hspacing]
    refine mul_le_mul_of_nonneg_right ?_ (spacing_pos y).le
    exact_mod_cast halfEven_mono (div_le_div_of_nonneg_right h (spacing_pos y).le)

/-- The nearest double to more is no less. -/
theorem nearest_mono : Monotone nearest := by
  intro x y h
  rcases lt_or_ge 0 x with hx | hx
  · exact nearest_mono_of_pos hx h
  · rcases lt_or_ge y 0 with hy | hy
    · exact nearest_mono_of_neg hy h
    · have hlow : nearest x ≤ 0 := nearest_le ⟨0,by simp⟩ hx
      exact hlow.trans (le_nearest ⟨0,by simp⟩ hy)

/-- From here on no double is finite. -/
def past : ℚ := 2^1024

/-- A number added to what doubles have come to, `⊤` when that is past them all. -/
def sum (a : WithTop ℚ) (b : ℚ) : WithTop ℚ :=
  match a with
  | ⊤ => ⊤
  | (a : ℚ) => if nearest (a+b) < past then (nearest (a+b) : WithTop ℚ) else ⊤

theorem sum_mono (b : ℚ) : Monotone fun a => sum a b := by
  intro a a' h
  cases a' with
  | top => exact le_top
  | coe a' =>
    obtain ⟨a,rfl,hle⟩ := WithTop.le_coe_iff.mp h
    have hnear : nearest (a+b) ≤ nearest (a'+b) := nearest_mono (by linarith)
    simp only [sum]
    split_ifs with hlt hlt'
    · exact_mod_cast hnear
    · exact le_top
    · linarith
    · exact le_rfl

end Double

/-! ## With the infinities -/

/-- A double: a number, an infinity, or no number, which has a sign and no more that is told
here. The zeros are one. -/
inductive F64 where
  | fin (q : ℚ)
  | inf (neg : Bool)
  | nan (neg : Bool)
  deriving DecidableEq, Repr

namespace F64

/-- What doubles have come to, none of them less than nothing. -/
def of : WithTop ℚ → F64
  | ⊤ => inf false
  | (q : ℚ) => fin q

/-- A number rounded. -/
def round (x : ℚ) : F64 :=
  if Double.past ≤ Double.nearest x then inf false
  else if Double.nearest x ≤ -Double.past then inf true
  else fin (Double.nearest x)

section
variable (sign : Bool)

/-- A sum; `sign` is that of what the machine makes when there is no number to make. -/
def add : F64 → F64 → F64
  | nan s, _ => nan s
  | _, nan s => nan s
  | inf a, inf b => if a = b then inf a else nan sign
  | inf a, fin _ => inf a
  | fin _, inf b => inf b
  | fin a, fin b => round (a+b)

def sub (x : F64) : F64 → F64
  | nan s => add sign x (nan s)
  | inf b => add sign x (inf !b)
  | fin b => add sign x (fin (-b))

def mul : F64 → F64 → F64
  | nan s, _ => nan s
  | _, nan s => nan s
  | inf a, inf b => inf (a != b)
  | inf a, fin q => if q = 0 then nan sign else inf (a != decide (q < 0))
  | fin q, inf b => if q = 0 then nan sign else inf (b != decide (q < 0))
  | fin a, fin b => round (a*b)

end

/-- Where a double is in the order of all of them (`total_cmp`). -/
def key : F64 → ℚ ×ₗ ℚ
  | nan true => toLex (-2,0)
  | inf true => toLex (-1,0)
  | fin q => toLex (0,q)
  | inf false => toLex (1,0)
  | nan false => toLex (2,0)

/-- Less, where both are numbers. -/
def less : F64 → F64 → Bool
  | nan _, _ => false
  | _, nan _ => false
  | x, y => key x < key y

/-- No more, where both are numbers. -/
def atMost : F64 → F64 → Bool
  | nan _, _ => false
  | _, nan _ => false
  | x, y => key x ≤ key y

end F64
end Spork
