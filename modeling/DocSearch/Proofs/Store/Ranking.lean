import Mathlib.Algebra.Order.Ring.Int
import Mathlib.Tactic.Ring
import DocSearch.Proofs.Store.Backing

/-!
# What a search may answer

A search joins the chunks with their vectors, orders them by their distance to the query and cuts
them to the limit. The order of equally distant chunks is nobody's promise, so there are several
lawful answers (`Tables.Ranked`); the tables give one of them (`ranked_execute`).

Nearness is an order: that of fractions is, and so is that of identities, which decides between
equally near chunks.
-/

namespace DocSearch

/-! ## Fractions -/

theorem Fraction.le_total (a b : Fraction) : (a.le b || b.le a) = true := by
  simp only [Fraction.le, Bool.or_eq_true, decide_eq_true_eq]
  exact Int.le_total _ _

theorem Fraction.le_trans {a b c : Fraction} (hab : a.le b = true) (hbc : b.le c = true) :
    a.le c = true := by
  simp only [Fraction.le, decide_eq_true_eq] at hab hbc ⊢
  have hb : (0 : Int) < b.denominator := by exact_mod_cast b.positive
  refine le_of_mul_le_mul_right ?_ hb
  calc a.numerator * c.denominator * b.denominator
      = a.numerator * b.denominator * c.denominator := by ring
    _ ≤ b.numerator * a.denominator * c.denominator :=
        Int.mul_le_mul_of_nonneg_right hab (Int.natCast_nonneg _)
    _ = b.numerator * c.denominator * a.denominator := by ring
    _ ≤ c.numerator * b.denominator * a.denominator :=
        Int.mul_le_mul_of_nonneg_right hbc (Int.natCast_nonneg _)
    _ = c.numerator * a.denominator * b.denominator := by ring

end DocSearch

namespace DocSearch.Store.Tables

/-! ## Identities -/

/-- The order of identities, column by column. -/
def identityCmp : Identity → Identity → Ordering :=
  compareLex (compareOn (·.package)) (compareLex (compareOn (·.filename))
    (compareLex (compareOn (·.symbol)) (compareOn (·.kind))))

instance : Std.TransCmp identityCmp := by
  unfold identityCmp
  infer_instance

theorem identityLe_eq (a b : Identity) : identityLe a b = (identityCmp a b).isLE := rfl

theorem identityLe_total (a b : Identity) : (identityLe a b || identityLe b a) = true := by
  have hswap : identityCmp b a = (identityCmp a b).swap := Std.OrientedCmp.eq_swap
  rw [identityLe_eq, identityLe_eq, hswap]
  cases identityCmp a b <;> rfl

theorem identityLe_trans {a b c : Identity} (hab : identityLe a b = true)
    (hbc : identityLe b c = true) : identityLe a c = true := by
  rw [identityLe_eq] at *
  exact Std.TransCmp.isLE_trans hab hbc

/-! ## Hits -/

theorem Hit.le_iff (a b : Hit) :
    a.le b = true ↔ b.nearness.le a.nearness = true ∧
      (a.nearness.le b.nearness = true →
        identityLe a.record.identity b.record.identity = true) := by
  have htotal := Fraction.le_total a.nearness b.nearness
  unfold Hit.le
  cases hab : a.nearness.le b.nearness <;> cases hba : b.nearness.le a.nearness <;> simp_all

theorem Hit.le_total (a b : Hit) : (a.le b || b.le a) = true := by
  have hnear := Fraction.le_total a.nearness b.nearness
  have hidentity := identityLe_total a.record.identity b.record.identity
  rw [Bool.or_eq_true] at hnear hidentity ⊢
  rw [Hit.le_iff, Hit.le_iff]
  by_cases hab : a.nearness.le b.nearness = true <;>
    by_cases hba : b.nearness.le a.nearness = true <;> simp_all

theorem Hit.le_trans {a b c : Hit} (hab : a.le b = true) (hbc : b.le c = true) :
    a.le c = true := by
  rw [Hit.le_iff] at hab hbc ⊢
  obtain ⟨hba, hab⟩ := hab
  obtain ⟨hcb, hbc⟩ := hbc
  refine ⟨Fraction.le_trans hcb hba, fun hac => ?_⟩
  exact identityLe_trans (hab (Fraction.le_trans hac hcb)) (hbc (Fraction.le_trans hba hac))

/-! ## Lawful answers -/

/-- The chunks joined with their vectors. -/
def joined (t : Tables) : List (Record × String) :=
  t.chunks.flatMap fun c => (t.vectorsOf c.1).map fun v => (c.2, v.2)

/-- The rows of a search with a limit: of the joined chunks, in an order in which no one is nearer
than one before it, as many as the limit lets through. -/
def Ranked (t : Tables) (nearer : String → String → Prop) (limit : Nat) (rows : List Row) : Prop :=
  ∃ order : List (Record × String), order.Perm t.joined ∧
    order.Pairwise (fun a b => nearer a.2 b.2) ∧ rows = (order.take limit).map fun x => rowOf x.1

theorem mem_joined {t : Tables} {x : Record × String} :
    x ∈ t.joined ↔ ∃ id, (id, x.1) ∈ t.chunks ∧ (id, x.2) ∈ t.vectors := by
  simp only [joined, vectorsOf, List.mem_flatMap, List.mem_map, List.mem_filter,
    decide_eq_true_eq]
  constructor
  · rintro ⟨⟨id, r⟩, hc, ⟨_, l⟩, ⟨hv, rfl⟩, rfl⟩
    exact ⟨_, hc, hv⟩
  · rintro ⟨id, hc, hv⟩
    exact ⟨_, hc, _, ⟨hv, rfl⟩, rfl⟩

/-- With sound tables, the vector of a chunk is looked up. -/
theorem joined_eq {t : Tables} (hs : t.Sound) :
    t.joined = t.chunks.filterMap fun c => (t.vectors.lookup c.1).map fun l => (c.2, l) := by
  rw [joined, List.filterMap_eq_flatMap_toList]
  refine List.flatMap_congr fun c _ => ?_
  rw [vectorsOf_eq hs, vector?]
  cases t.vectors.lookup c.1 <;> rfl

/-! ## The answer of the tables -/

/-- By the literals of two vectors, the second one is no nearer to a query than the first. -/
def nearerTo (query a b : String) : Prop :=
  (nearness (numbersOf query) (numbersOf b)).le (nearness (numbersOf query) (numbersOf a)) = true

/-- The hit that a joined chunk is for a query. -/
def hitOf (query : String) (x : Record × String) : Hit :=
  ⟨nearness (numbersOf query) (numbersOf x.2), x.1⟩

/-- The order of joined chunks that a query asks for. -/
def comesFirst (query : String) (x y : Record × String) : Bool :=
  (hitOf query x).le (hitOf query y)

theorem hits_eq {t : Tables} (hs : t.Sound) (query : String) :
    t.hits (numbersOf query) = t.joined.map (hitOf query) := by
  rw [joined_eq hs, List.map_filterMap, hits]
  refine List.filterMap_congr fun c _ => ?_
  rw [Option.map_map]
  rfl

theorem ranked_eq {t : Tables} (hs : t.Sound) (query : String) :
    t.ranked (numbersOf query) = (t.joined.mergeSort (comesFirst query)).map (·.1) := by
  have hsort : (t.joined.mergeSort (comesFirst query)).map (hitOf query) =
      (t.joined.map (hitOf query)).mergeSort Hit.le :=
    List.map_mergeSort fun _ _ _ _ => rfl
  rw [ranked, hits_eq hs, ← hsort, List.map_map]
  exact List.map_congr_left fun _ _ => rfl

theorem nearerTo_of_comesFirst {query : String} {x y : Record × String}
    (h : comesFirst query x y = true) : nearerTo query x.2 y.2 := by
  have hnear := ((Hit.le_iff (hitOf query x) (hitOf query y)).1 h).1
  simpa only [hitOf, nearerTo] using hnear

theorem pairwise_comesFirst (query : String) (xs : List (Record × String)) :
    (xs.mergeSort (comesFirst query)).Pairwise fun x y => nearerTo query x.2 y.2 := by
  have htrans : ∀ x y z, comesFirst query x y = true → comesFirst query y z = true →
      comesFirst query x z = true := by
    intro x y z hxy hyz
    exact Hit.le_trans (b := hitOf query y) hxy hyz
  have htotal : ∀ x y, (comesFirst query x y || comesFirst query y x) = true := by
    intro x y
    exact Hit.le_total (hitOf query x) (hitOf query y)
  exact (List.pairwise_mergeSort htrans htotal xs).imp nearerTo_of_comesFirst

/-- **The tables answer lawfully.** -/
theorem ranked_execute {t : SerialTables} (hs : t.Sound) {query : String} {limit : Int}
    {script : Rows} (h : (t.execute (.nearest query (.int limit))).1 = .brought script) :
    t.Ranked (nearerTo query) limit.toNat script.rows := by
  have hcut : cut (.int limit) ((t.ranked (numbersOf query)).map rowOf) = .brought script := h
  have hrows : script.rows = ((t.ranked (numbersOf query)).map rowOf).take limit.toNat := by
    unfold cut at hcut
    simp only [Value.toInteger] at hcut
    split_ifs at hcut
    rw [← Reaction.brought.inj hcut]
  refine ⟨_, List.mergeSort_perm _ _, pairwise_comesFirst query t.joined, ?_⟩
  rw [hrows, ranked_eq hs, List.map_map, List.map_take]
  rfl

end DocSearch.Store.Tables

namespace DocSearch.Store

/-! ## Worlds that are searched -/

/-- A world whose database is made of tables and answers searches lawfully; `nearer query a b` says
that the vector `b` is no nearer to `query` than `a`. -/
structure Serves {σ : Type} (o : Outside σ) (tables : σ → Tables)
    (nearer : String → String → String → Prop) : Prop extends Backed o tables where
  lend : ∀ w, tables (o.lend w).2 = tables w
  nearest : ∀ query limit w script, (tables w).Sound →
    (o.execute (.nearest query (.int limit)) w).1 = .brought script → script.failure = none →
    (tables w).Ranked (nearer query) limit.toNat script.rows

theorem serves_tablesWorld : Serves tablesWorld stored Tables.nearerTo where
  toBacked := reliable_tablesWorld.toBacked
  lend _ := rfl
  nearest _ _ _ _ hs h _ := Tables.ranked_execute hs h

end DocSearch.Store
