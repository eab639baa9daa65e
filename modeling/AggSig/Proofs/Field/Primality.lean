/-
  The field modulus and the group order are prime.

  A number `n` is prime if some `root` has order `n - 1` modulo `n`, and for that it is enough that
  `root ^ (n - 1)` is one and that `root ^ ((n - 1) / p)` is not, for each prime `p` that divides
  `n - 1`.  A certificate lists numbers with such a root and with the prime factors of the number less
  one; a factor has to be certified further up in the list, or small enough to be tried out.

  `Certificate.prime_of_check` says that a list that passes the check certifies primes only, and
  `prime_q` and `prime_groupOrder` are read off two such lists.  The check runs on residues that are
  plain numbers, along the binary digits of the exponent.
-/
import AggSig.Proofs.Field.Power
import Mathlib.Algebra.BigOperators.Associated
import Mathlib.Data.List.Prime
import Mathlib.NumberTheory.LucasPrimality

namespace AggSig.Certificate

/-! ## Residues that compute -/

/-- A number that stands for its residue modulo `m`. -/
structure Residue (m : Nat) where
  val : Nat

instance {m : Nat} : One (Residue m) := ⟨⟨1⟩⟩
instance {m : Nat} : Mul (Residue m) := ⟨fun a b => ⟨a.val * b.val % m⟩⟩

/-- A computed power of a residue stands for the power in the ring of residues. -/
theorem cast_power {m : Nat} (a n : Nat) :
    (((power (⟨a⟩ : Residue m) n).val : Nat) : ZMod m) = (a : ZMod m) ^ n := by
  have hmul : ∀ x y : Residue m, ((x * y).val : ZMod m) = (x.val : ZMod m) * (y.val : ZMod m) := by
    intro x y
    show ((x.val * y.val % m : Nat) : ZMod m) = _
    rw [ZMod.natCast_mod, Nat.cast_mul]
  rw [map_power (fun x : Residue m => (x.val : ZMod m)) Nat.cast_one hmul, power_eq_pow]

/-- Whether a power is one modulo a number. -/
def isOnePower (m a n : Nat) : Bool := (power (⟨a⟩ : Residue m) n).val % m = 1

theorem isOnePower_iff {m : Nat} (hm : 1 < m) (a n : Nat) :
    isOnePower m a n = true ↔ (a : ZMod m) ^ n = 1 := by
  rw [isOnePower, decide_eq_true_iff, ← cast_power, ← Nat.cast_one (R := ZMod m),
    ZMod.natCast_eq_natCast_iff', Nat.mod_eq_of_lt hm]

/-! ## Lists of steps -/

/-- A number, a root of its units, and the prime factors of the number less one, each with its
    exponent. -/
structure Step where
  number : Nat
  root : Nat
  factors : List (Nat × Nat)

/-- Whether none of `count` numbers from `d` on divides `n`, where a number whose square is above `n`
    ends the search. -/
def noDivisorFrom (n : Nat) : (count d : Nat) → Bool
  | 0, _ => false
  | count + 1, d => n < d * d || n % d != 0 && noDivisorFrom n count (d + 1)

/-- Whether a number is seen to be prime by trying out divisors below `1024`. -/
def isSmallPrime (n : Nat) : Bool := 1 < n && noDivisorFrom n 1024 2

/-- Whether a step holds, given the numbers that are certified already. -/
def Step.holds (certified : List Nat) (s : Step) : Bool :=
  1 < s.number && (s.factors.map fun (p, e) => p ^ e).prod = s.number - 1 &&
    s.factors.all (fun (p, _) => certified.contains p || isSmallPrime p) &&
    isOnePower s.number s.root (s.number - 1) &&
    s.factors.all fun (p, _) => !isOnePower s.number s.root ((s.number - 1) / p)

/-- Whether every step holds, given the numbers that are certified already and those of the steps
    before it. -/
def check : (certified : List Nat) → List Step → Bool
  | _, [] => true
  | certified, s :: rest => s.holds certified && check (s.number :: certified) rest

/-- What the search has not found below the square root does not divide. -/
theorem not_dvd_of_noDivisorFrom {n count d : Nat} (h : noDivisorFrom n count d = true) :
    ∀ c, d ≤ c → c * c ≤ n → ¬ c ∣ n := by
  induction count generalizing d with
  | zero => exact Bool.noConfusion h
  | succ count ih =>
    intro c hdc hcn hdvd
    rw [noDivisorFrom, Bool.or_eq_true, Bool.and_eq_true, decide_eq_true_iff, bne_iff_ne] at h
    rcases h with hsquare | ⟨hd, hrest⟩
    · have : d * d ≤ c * c := Nat.mul_le_mul hdc hdc
      omega
    · rcases Nat.eq_or_lt_of_le hdc with rfl | hlt
      · exact hd (Nat.mod_eq_zero_of_dvd hdvd)
      · exact ih hrest c hlt hcn hdvd

/-- A number that no smaller one up to its root divides is prime. -/
theorem prime_of_isSmallPrime {n : Nat} (h : isSmallPrime n = true) : n.Prime := by
  rw [isSmallPrime, Bool.and_eq_true, decide_eq_true_iff] at h
  obtain ⟨h1, htried⟩ := h
  by_contra hn
  have hsquare : n.minFac * n.minFac ≤ n := by
    rw [← pow_two]; exact Nat.minFac_sq_le_self (by omega) hn
  have htwo : 2 ≤ n.minFac := (Nat.minFac_prime (by omega)).two_le
  exact not_dvd_of_noDivisorFrom htried n.minFac htwo hsquare n.minFac_dvd

/-- A step that holds certifies a prime, if the numbers certified before it are prime. -/
theorem Step.prime {certified : List Nat} {s : Step} (hc : ∀ p ∈ certified, p.Prime)
    (h : s.holds certified = true) : s.number.Prime := by
  simp only [Step.holds, Bool.and_eq_true, decide_eq_true_eq, List.all_eq_true, Bool.or_eq_true,
    List.contains_iff_mem, Bool.not_eq_true'] at h
  obtain ⟨⟨⟨⟨h1, hprod⟩, hfactors⟩, hfull⟩, hpart⟩ := h
  have hprime : ∀ f ∈ s.factors, f.1.Prime := by
    intro f hf
    rcases hfactors f hf with h | h
    · exact hc f.1 h
    · exact prime_of_isSmallPrime h
  refine lucas_primality s.number (s.root : ZMod s.number) ((isOnePower_iff h1 _ _).mp hfull) ?_
  intro p hp hdvd hone
  -- a prime that divides the product of the factors is one of them
  obtain ⟨f, hf, rfl⟩ : ∃ f ∈ s.factors, f.1 = p := by
    rw [← hprod] at hdvd
    obtain ⟨x, hx, hpx⟩ := (Prime.dvd_prod_iff hp.prime).mp hdvd
    obtain ⟨f, hf, rfl⟩ := List.mem_map.mp hx
    have hpf : p ∣ f.1 := hp.dvd_of_dvd_pow hpx
    exact ⟨f, hf, ((Nat.prime_dvd_prime_iff_eq hp (hprime f hf)).mp hpf).symm⟩
  have hfalse := hpart f hf
  rw [(isOnePower_iff h1 _ _).mpr hone] at hfalse
  exact Bool.noConfusion hfalse

/-- Every number of a list that passes the check is prime. -/
theorem prime_of_check {certified : List Nat} {steps : List Step}
    (hc : ∀ p ∈ certified, p.Prime) (h : check certified steps = true) :
    ∀ s ∈ steps, s.number.Prime := by
  -- the certified numbers stay prime from one step to the next
  induction steps generalizing certified with
  | nil => intro s hs; exact absurd hs (List.not_mem_nil)
  | cons first rest ih =>
    rw [check, Bool.and_eq_true] at h
    have hfirst : first.number.Prime := first.prime hc h.1
    intro s hs
    rcases List.mem_cons.mp hs with rfl | hs
    · exact hfirst
    · refine ih ?_ h.2 s hs
      intro p hp
      rcases List.mem_cons.mp hp with rfl | hp
      · exact hfirst
      · exact hc p hp

/-! ## The two primes -/

/-- The steps down to the field modulus. -/
def modulusSteps : List Step :=
  [⟨52437899, 2, [(2, 1), (43, 1), (609743, 1)]⟩,
   ⟨9272813673901, 2, [(2, 2), (3, 1), (5, 2), (7, 1), (7577, 1), (582767, 1)]⟩,
   ⟨1928745244171409, 3, [(2, 4), (13, 1), (9272813673901, 1)]⟩,
   ⟨7259797099061183477, 2, [(2, 2), (941, 1), (1928745244171409, 1)]⟩,
   ⟨2584487767265781317813, 2, [(2, 2), (89, 1), (7259797099061183477, 1)]⟩,
   ⟨1686913, 10, [(2, 7), (3, 1), (23, 1), (191, 1)]⟩,
   ⟨475709467, 2, [(2, 1), (3, 1), (47, 1), (1686913, 1)]⟩,
   ⟨927093389, 3, [(2, 2), (13, 1), (409, 1), (43591, 1)]⟩,
   ⟨64881703735777, 5, [(2, 5), (3, 7), (927093389, 1)]⟩,
   ⟨92691255082156974996979, 3,
    [(2, 1), (3, 1), (31, 1), (467, 1), (16447, 1), (64881703735777, 1)]⟩,
   ⟨51376543, 3, [(2, 1), (3, 1), (7, 1), (151, 1), (8101, 1)]⟩,
   ⟨43670061551, 7, [(2, 1), (5, 2), (17, 1), (51376543, 1)]⟩,
   ⟨13090036741, 10, [(2, 2), (3, 1), (5, 1), (11, 1), (47, 1), (421987, 1)]⟩,
   ⟨3819663927398918131021, 6,
    [(2, 2), (3, 2), (5, 1), (19, 1), (113, 1), (755057, 1), (13090036741, 1)]⟩,
   ⟨1125266252156850182658904441386709967, 5,
    [(2, 1), (3373, 1), (43670061551, 1), (3819663927398918131021, 1)]⟩,
   ⟨15778400344354997994418419698270088123916926905054652752758194827714659, 2,
    [(2, 1), (3, 1), (53, 1), (475709467, 1), (92691255082156974996979, 1),
     (1125266252156850182658904441386709967, 1)]⟩,
   ⟨q, 2,
    [(2, 1), (3, 2), (11, 1), (23, 1), (47, 1), (10177, 1), (859267, 1), (52437899, 1),
     (2584487767265781317813, 1),
     (15778400344354997994418419698270088123916926905054652752758194827714659, 1)]⟩]

/-- The steps down to the group order. -/
def orderSteps : List Step :=
  [⟨2508409, 11, [(2, 3), (3, 4), (7, 2), (79, 1)]⟩,
   ⟨2529403, 2, [(2, 1), (3, 1), (23, 1), (18329, 1)]⟩,
   ⟨52437899, 2, [(2, 1), (43, 1), (609743, 1)]⟩,
   ⟨2653753, 5, [(2, 3), (3, 1), (110573, 1)]⟩,
   ⟨63690073, 7, [(2, 3), (3, 1), (2653753, 1)]⟩,
   ⟨254760293, 2, [(2, 2), (63690073, 1)]⟩,
   ⟨groupOrder, 7,
    [(2, 32), (3, 1), (11, 1), (19, 1), (10177, 1), (125527, 1), (859267, 1), (906349, 2),
     (2508409, 1), (2529403, 1), (52437899, 1), (254760293, 2)]⟩]

/-- The numbers of a list that passes the check, when nothing is certified before it. -/
theorem prime_of_mem {steps : List Step} (h : check [] steps = true) {n : Nat}
    (hn : n ∈ steps.map Step.number) : n.Prime := by
  obtain ⟨s, hs, rfl⟩ := List.mem_map.mp hn
  exact prime_of_check (by simp) h s hs

end AggSig.Certificate

namespace AggSig

open Certificate in
/-- The field modulus is prime. -/
theorem prime_q : q.Prime := by
  have hcheck : check [] modulusSteps = true := by decide +kernel
  exact prime_of_mem hcheck (by simp [modulusSteps])

open Certificate in
/-- The group order is prime. -/
theorem prime_groupOrder : groupOrder.Prime := by
  have hcheck : check [] orderSteps = true := by decide +kernel
  exact prime_of_mem hcheck (by simp [orderSteps])

end AggSig
