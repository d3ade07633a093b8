import K6Rs.Model.ScriptMetrics
import K6Rs.Verification.Metrics.Gauges
import K6Rs.Verification.Selector.Grammar
import K6Rs.Verification.Thresholds.Merge
import Mathlib.Algebra.Order.BigOperators.Group.List

/-! What a script reads of its metric objects. The tags of an `add` are lost, a counter takes zero
for one and whole parts for the rest, and a live read counts every stored name that it selects. -/

namespace K6Rs

open FloatOps MetricSelector

/-! ## Reads with a tag -/

/-- Whether a live read counts what is stored under a key. -/
def liveSelects (query stored : Str) : Bool := storedMatchesQuery stored (parseQuery query) query

/-- The read of the adds that have one tag. -/
def subsetQuery (name : Str) (tag : Str × Str) : Str := name ++ '{' :: (pairText tag ++ ['}'])

/-- The colons of a selector with these tags: one for each pair, and those of the values. -/
def colons (tags : List (Str × Str)) : ℕ := (tags.map fun a => 1 + a.2.count ':').sum

theorem count_trim {c : Char} (hc : Str.isWhitespace c = false) (s : Str) :
    (Str.trim s).count c = s.count c := by
  have hstart (t : Str) : (Str.trimStart t).count c = t.count c := by
    induction t with
    | nil => rfl
    | cons a t ih =>
        rw [Str.trimStart, List.dropWhile_cons]
        split
        · rename_i ha
          have hne : a ≠ c := fun h => by simp [h, hc] at ha
          rw [List.count_cons_of_ne hne]
          exact ih
        · rfl
  have hend (t : Str) : (Str.trimEnd t).count c = t.count c := by
    rw [Str.trimEnd, List.rdropWhile, List.count_reverse]
    exact (hstart t.reverse).trans List.count_reverse
  rw [Str.trim, hend, hstart]

theorem count_of_isTag {text : Str} {a : Str × Str} (h : IsTag text a) :
    text.count ':' = 1 + a.2.count ':' := by
  have hcolon : Str.isWhitespace ':' = false := by decide
  obtain ⟨key, value, htext, hkey, hvalue⟩ := h.text
  have hclean : key.count ':' = 0 := by
    rw [← count_trim hcolon, hkey, List.count_eq_zero]
    exact (not_mem_of_not_containsReserved h.key_clean).2.2.1
  rw [← count_trim hcolon, htext, List.count_append, List.count_cons_self, hclean, ← hvalue,
    count_trim hcolon]
  omega

theorem count_of_isTagList {inner : Str} {pairs : List (Str × Str)} (h : IsTagList inner pairs) :
    inner.count ':' = colons pairs := by
  rcases h with ⟨hblank, rfl⟩ | ⟨texts, rfl, htexts⟩
  · rw [← count_trim (by decide), hblank]
    rfl
  · rw [Str.count_intercalate _ _ (by decide)]
    induction htexts with
    | nil => rfl
    | cons htag _ ih => simp [colons, count_of_isTag htag, ih]

theorem count_of_denotes {s name : Str} {pairs : List (Str × Str)} (h : Denotes s name pairs) :
    s.count ':' = colons pairs := by
  have hcolon : Str.isWhitespace ':' = false := by decide
  have hname : name.count ':' = 0 :=
    List.count_eq_zero.mpr (not_mem_of_not_containsReserved h.name_clean).2.2.1
  rw [← count_trim hcolon]
  rcases h.text with ⟨hbare, rfl⟩ | ⟨before, inner, htext, hbefore, hinner⟩
  · rw [hbare, hname]
    rfl
  · have hzero : before.count ':' = 0 := by rw [← count_trim hcolon, hbefore, hname]
    simp [htext, hzero, count_of_isTagList hinner]

theorem perm_ofList {pairs : List (Str × Str)} (h : (pairs.map Prod.fst).Nodup) :
    (SortedMap.ofList pairs).entries.Perm pairs := by
  have hkeys : (SortedMap.ofList pairs).entries.Nodup :=
    (SortedMap.ofList pairs).sorted.imp fun hlt heq => hlt.ne (congrArg Prod.fst heq)
  refine (List.perm_ext_iff_of_nodup hkeys h.of_map).mpr ?_
  rintro ⟨k, v⟩
  rw [← SortedMap.find?_eq_some_iff, SortedMap.find?_ofList_iff]
  intro k v v' hv hv'
  exact congrArg Prod.snd (List.inj_on_of_nodup_map h hv hv' rfl)

/-- The colons of a text that is parsed are all in its tags. -/
theorem count_of_parse {s : Str} {sel : MetricSelector} (h : parse s = .ok sel) :
    s.count ':' = colons sel.tags.entries := by
  obtain ⟨pairs, hdenotes, htags⟩ := (parse_eq_ok_iff s sel).mp h
  rw [count_of_denotes hdenotes, ← htags]
  exact ((perm_ofList hdenotes.nodup).map _).sum_eq.symm

/-- A query has no more colons than a selector that it matches. -/
theorem colons_le_of_tagsMatch {query stored : TagMap} (h : tagsMatch query stored = true) :
    colons query.entries ≤ colons stored.entries := by
  have hnodup : query.entries.Nodup :=
    query.sorted.imp fun hlt heq => hlt.ne (congrArg Prod.fst heq)
  have hsubset : query.entries ⊆ stored.entries := by
    intro a ha
    have hfind := List.all_eq_true.mp h a ha
    exact (SortedMap.find?_eq_some_iff stored a.1 a.2).mp (eq_of_beq hfind)
  obtain ⟨l, hperm, hsub⟩ := hnodup.subperm hsubset
  calc colons query.entries = colons l := (hperm.map _).sum_eq.symm
    _ ≤ colons stored.entries := (hsub.map _).sum_le_sum fun _ _ => Nat.zero_le _

/-- A read with a tag never selects its own bare name. -/
theorem selects_subsetQuery_self (name : Str) (tag : Str × Str) :
    liveSelects (subsetQuery name tag) name = false := by
  have hne : (name == subsetQuery name tag) = false := by
    rw [beq_eq_false_iff_ne, subsetQuery]
    intro heq
    exact List.cons_ne_nil _ _ (List.append_right_eq_self.mp heq.symm)
  unfold liveSelects storedMatchesQuery parseQuery
  cases hquery : parse (subsetQuery name tag) with
  | error e => exact hne
  | ok q =>
      cases hname : parse name with
      | error e => simpa [Except.toOption, hname] using hne
      | ok sel =>
          simp only [Except.toOption, Bool.and_eq_false_imp]
          intro _
          rw [← Bool.not_eq_true]
          intro hmatch
          have hle := colons_le_of_tagsMatch hmatch
          rw [← count_of_parse hquery, ← count_of_parse hname, subsetQuery, pairText] at hle
          simp at hle

theorem selects_self (name : Str) : liveSelects name name = true := by
  unfold liveSelects storedMatchesQuery parseQuery
  cases h : parse name with
  | error e => simp [Except.toOption]
  | ok sel =>
      simp only [Except.toOption, beq_self_eq_true, Bool.true_and, tagsMatch, List.all_eq_true,
        beq_iff_eq]
      intro a ha
      exact (SortedMap.find?_eq_some_iff sel.tags a.1 a.2).mpr ha

/-! ## The values of a call -/

/-- A call with a finite value that is not negative, and with well-formed tags. -/
structure AddCall.Valid (call : AddCall Double) : Prop where
  finite : call.value.IsFinite
  nonneg : 0 ≤ call.value.toRat
  tags : ∀ a ∈ call.tags.entries, WellFormedTag a

/-- What a counter call adds. -/
def counted (value : Double) : UInt64 :=
  UInt64.ofNat (toU64 (if falsy value then ofNat 1 else value))

theorem falsy_iff {value : Double} (h : value.IsFinite) : falsy value = true ↔ value.toRat = 0 := by
  cases value with
  | nan => cases h
  | num s m =>
      have hzero : (zero : Double) = .num false 0 := by decide +kernel
      have hvalue : Double.magValue m = 0 ↔ (m : ℕ) = 0 := by
        rw [← Double.magValue_zero, Double.magValue_strictMono.injective.eq_iff]
      have hfalsy : falsy (Double.num s m) = true ↔ (m : ℕ) = 0 := by
        rw [falsy, hzero]
        cases s <;> simp [FloatOps.eq, Double.compare, Double.rank]
      rw [hfalsy, ← hvalue]
      cases s <;> simp [Double.toRat]

theorem counted_eq_iff {value : Double} (h : value.IsFinite) (hnonneg : 0 ≤ value.toRat)
    (hlt : value.toRat < 2 ^ 64) :
    ((counted value).toNat : ℚ) = value.toRat ↔ ∃ n : ℕ, 0 < n ∧ value.toRat = n := by
  by_cases hfalsy : falsy value = true
  · have hone : (UInt64.ofNat (toU64 (ofNat 1 : Double))).toNat = 1 := by decide +kernel
    rw [counted, if_pos hfalsy, hone, (falsy_iff h).mp hfalsy]
    constructor
    · intro heq
      norm_num at heq
    · rintro ⟨n, hpos, hn⟩
      have hzero : n = 0 := by exact_mod_cast hn.symm
      omega
  · have hne := mt (falsy_iff h).mpr hfalsy
    have hpos : 0 < value.toRat := lt_of_le_of_ne hnonneg (Ne.symm hne)
    have hfloor : (counted value).toNat = ⌊value.toRat⌋₊ := by
      rw [counted, if_neg hfalsy]
      cases value with
      | nan => cases h
      | num s m =>
          cases s with
          | true =>
              have hmag := Double.magValue_nonneg m
              simp only [Double.toRat, if_true] at hpos
              linarith
          | false =>
              have hfinite : (m : ℕ) ≠ infMag := Nat.ne_of_lt h
              have hsmall : ⌊Double.magValue m⌋₊ < 2 ^ 64 := by
                rw [Nat.floor_lt (Double.magValue_nonneg m)]
                exact_mod_cast hlt
              have hfloor : toU64 (Double.num false m) = ⌊Double.magValue m⌋₊ := by
                change Double.toU64 _ = _
                simp only [Double.toU64, Bool.false_eq_true, if_false, hfinite]
                omega
              rw [hfloor, UInt64.toNat_ofNat', Nat.mod_eq_of_lt hsmall]
              rfl
    rw [hfloor]
    constructor
    · intro heq
      refine ⟨⌊value.toRat⌋₊, ?_, heq.symm⟩
      rw [← heq] at hpos
      exact_mod_cast hpos
    · rintro ⟨n, -, hn⟩
      rw [hn, Nat.floor_natCast]

/-- An unsigned addition is exact when the sum fits. -/
theorem toNat_add_eq_iff {r u : UInt64} {s v : ℚ} (hr : (r.toNat : ℚ) = s) (hv : 0 ≤ v) :
    ((r + u).toNat : ℚ) = s + v ↔ (u.toNat : ℚ) = v ∧ s + v < 2 ^ 64 := by
  have hu := u.toNat_lt
  rw [UInt64.toNat_add, ← hr]
  constructor
  · intro heq
    have hlt : ((r.toNat + u.toNat) % 2 ^ 64 : ℕ) < 2 ^ 64 := Nat.mod_lt _ (by decide)
    have hcast : (((r.toNat + u.toNat) % 2 ^ 64 : ℕ) : ℚ) < 2 ^ 64 := by exact_mod_cast hlt
    refine ⟨?_, heq ▸ hcast⟩
    have hle : (r.toNat : ℚ) ≤ ((r.toNat + u.toNat) % 2 ^ 64 : ℕ) := by linarith
    have hwrap : (r.toNat + u.toNat) % 2 ^ 64 = r.toNat + u.toNat := by
      have hle' : r.toNat ≤ (r.toNat + u.toNat) % 2 ^ 64 := by exact_mod_cast hle
      omega
    rw [hwrap, Nat.cast_add] at heq
    linarith
  · rintro ⟨rfl, hlt⟩
    have hsmall : r.toNat + u.toNat < 2 ^ 64 := by exact_mod_cast hlt
    rw [Nat.mod_eq_of_lt hsmall, Nat.cast_add]

/-! ## Live reads after a call -/

section

variable (H : Type) [Histogram Double H]

def AddCall.observation (call : AddCall Double) : Observation Double :=
  match call.kind with
  | .counter => .counter (counted call.value)
  | .rate => .rate (!falsy call.value)
  | .trend => .trend call.value

/-- A call records one sample without tags. -/
def AddCall.sample (call : AddCall Double) : Sample Double := ⟨call.name, .none, call.observation⟩

theorem runAdds_eq_record (calls : List (AddCall Double)) :
    (runAdds calls : MetricsRegistry Double H) = .record (calls.map AddCall.sample) := by
  rw [runAdds, MetricsRegistry.record, List.foldl_map]
  congr 1
  funext reg call
  rw [AddCall.run, AddCall.sample, AddCall.observation]
  cases call.kind <;> rfl

theorem canonical_bare (name : Str) : canonical ⟨name, ∅⟩ = name := rfl

theorem counterWrite_sample (call : AddCall Double) : call.sample.counterWrite =
    if call.kind = .counter then some (⟨call.name, ∅⟩, counted call.value) else none := by
  rw [Sample.counterWrite, AddCall.sample, AddCall.observation]
  cases call.kind <;> rfl

theorem rateWrite_sample (call : AddCall Double) : call.sample.rateWrite =
    if call.kind = .rate then some (⟨call.name, ∅⟩, !falsy call.value) else none := by
  rw [Sample.rateWrite, AddCall.sample, AddCall.observation]
  cases call.kind <;> rfl

theorem trendWrite_sample (call : AddCall Double) : call.sample.trendWrite =
    if call.kind = .trend then some (⟨call.name, ∅⟩, call.value) else none := by
  rw [Sample.trendWrite, AddCall.sample, AddCall.observation]
  cases call.kind <;> rfl

open scoped UInt64.CommRing in
theorem counterGet_concat (calls : List (AddCall Double)) (call : AddCall Double) (query : Str) :
    (runAdds (calls ++ [call]) : MetricsRegistry Double H).counterGet query =
      (runAdds calls : MetricsRegistry Double H).counterGet query +
        if call.kind = .counter ∧ liveSelects query call.name then counted call.value else 0 := by
  have hread (l : List (AddCall Double)) :
      (runAdds l : MetricsRegistry Double H).counterGet query =
        (((l.map AddCall.sample).filterMap Sample.counterWrite).map fun w =>
          if liveSelects query (canonical w.1) then w.2 else 0).sum := by
    rw [runAdds_eq_record, ← MetricsRegistry.total_counters_record (H := H)]
    rfl
  rw [hread, hread, List.map_append, List.filterMap_append, List.map_append, List.sum_append]
  congr 1
  by_cases hkind : call.kind = .counter
  · by_cases hsel : liveSelects query call.name = true
    · simp [counterWrite_sample, hkind, canonical_bare, hsel]
    · simp [counterWrite_sample, hkind, canonical_bare, hsel]
  · simp [counterWrite_sample, hkind]

theorem rateGet_concat (calls : List (AddCall Double)) (call : AddCall Double) (query : Str) :
    ((runAdds (calls ++ [call]) : MetricsRegistry Double H).rateGet query).2 =
      ((runAdds calls : MetricsRegistry Double H).rateGet query).2 +
        if call.kind = .rate ∧ liveSelects query call.name then ((!falsy call.value).toNat, 1)
        else 0 := by
  have hread (l : List (AddCall Double)) :
      ((runAdds l : MetricsRegistry Double H).rateGet query).2 =
        ((((l.map AddCall.sample).filterMap Sample.rateWrite).map fun w =>
          if liveSelects query (canonical w.1) then w.2.toNat else 0).sum,
          (((l.map AddCall.sample).filterMap Sample.rateWrite).map fun w =>
          if liveSelects query (canonical w.1) then 1 else 0).sum) := by
    rw [runAdds_eq_record, rateGet_eq, ← MetricsRegistry.total_passes_record (H := H),
      ← MetricsRegistry.total_checks_record (H := H)]
    rfl
  rw [hread, hread, List.map_append, List.filterMap_append, List.map_append, List.map_append,
    List.sum_append, List.sum_append, ← Prod.mk_add_mk]
  congr 1
  by_cases hkind : call.kind = .rate
  · by_cases hsel : liveSelects query call.name = true
    · simp [rateWrite_sample, hkind, canonical_bare, hsel]
    · simp [rateWrite_sample, hkind, canonical_bare, hsel]
  · simp [rateWrite_sample, hkind]

theorem trendStats_concat (calls : List (AddCall Double)) (call : AddCall Double) (query : Str) :
    ((runAdds (calls ++ [call]) : MetricsRegistry Double H).trendStats query).elim 0
      TrendStats.count =
      ((runAdds calls : MetricsRegistry Double H).trendStats query).elim 0 TrendStats.count +
        if call.kind = .trend ∧ liveSelects query call.name then 1 else 0 := by
  have hread (l : List (AddCall Double)) :
      ((runAdds l : MetricsRegistry Double H).trendStats query).elim 0 TrendStats.count =
        (((l.map AddCall.sample).filterMap Sample.trendWrite).map fun w =>
          if liveSelects query (canonical w.1) then 1 else 0).sum := by
    rw [runAdds_eq_record, trendStats_count, ← MetricsRegistry.total_values_record (H := H)]
    rfl
  rw [hread, hread, List.map_append, List.filterMap_append, List.map_append, List.sum_append]
  congr 1
  by_cases hkind : call.kind = .trend
  · by_cases hsel : liveSelects query call.name = true
    · simp [trendWrite_sample, hkind, canonical_bare, hsel]
    · simp [trendWrite_sample, hkind, canonical_bare, hsel]
  · simp [trendWrite_sample, hkind]

/-! ## What a read should answer -/

/-- The calls on metrics of one kind that a read should count. -/
def wantedCalls (kind : ScriptMetric) (wanted : AddCall Double → Bool)
    (calls : List (AddCall Double)) : List (AddCall Double) :=
  calls.filter fun call => call.kind = kind && wanted call

def valueSum (calls : List (AddCall Double)) : ℚ := (calls.map fun call => call.value.toRat).sum

/-- A live read aggregates exactly the wanted calls. -/
def Answers (calls : List (AddCall Double)) (kind : ScriptMetric) (query : Str)
    (wanted : AddCall Double → Bool) : Prop :=
  let reg : MetricsRegistry Double H := runAdds calls
  let counted := wantedCalls kind wanted calls
  match kind with
  | .counter => ((reg.counterGet query).toNat : ℚ) = valueSum counted
  | .rate =>
      (reg.rateGet query).2 =
        ((counted.filter fun call => call.value.toRat ≠ 0).length, counted.length)
  | .trend => (reg.trendStats query).elim 0 TrendStats.count = counted.length

/-- What one more call has to meet so that a right answer stays right. -/
def StaysRight (calls : List (AddCall Double)) (call : AddCall Double) (query : Str)
    (wanted : AddCall Double → Bool) : ScriptMetric → Prop
  | .counter =>
      ((if liveSelects query call.name then counted call.value else 0).toNat : ℚ) =
          (if wanted call then call.value.toRat else 0) ∧
        (wanted call = true → valueSum (wantedCalls .counter wanted (calls ++ [call])) < 2 ^ 64)
  | .rate => liveSelects query call.name = wanted call
  | .trend => liveSelects query call.name = wanted call

variable {H} {calls : List (AddCall Double)} {call : AddCall Double} {kind : ScriptMetric}
  {query : Str} {wanted : AddCall Double → Bool}

theorem wantedCalls_concat (h : call.kind = kind) : wantedCalls kind wanted (calls ++ [call]) =
    wantedCalls kind wanted calls ++ if wanted call then [call] else [] := by
  rw [wantedCalls, wantedCalls, List.filter_append]
  cases hw : wanted call <;> simp [h, hw]

theorem wantedCalls_concat_of_ne (h : call.kind ≠ kind) :
    wantedCalls kind wanted (calls ++ [call]) = wantedCalls kind wanted calls := by
  simp [wantedCalls, h]

/-- A call on a metric of another kind changes no answer. -/
theorem answers_concat_of_ne (h : call.kind ≠ kind) :
    Answers H (calls ++ [call]) kind query wanted ↔ Answers H calls kind query wanted := by
  cases kind with
  | counter => simp [Answers, counterGet_concat, wantedCalls_concat_of_ne h, h]
  | rate => simp [Answers, rateGet_concat, wantedCalls_concat_of_ne h, h]
  | trend => simp [Answers, trendStats_concat, wantedCalls_concat_of_ne h, h]

theorem answers_concat (h : call.kind = kind) (hvalid : call.Valid)
    (hcalls : Answers H calls kind query wanted) :
    Answers H (calls ++ [call]) kind query wanted ↔ StaysRight calls call query wanted kind := by
  cases kind with
  | counter =>
      have hread : ((runAdds calls : MetricsRegistry Double H).counterGet query).toNat =
          valueSum (wantedCalls .counter wanted calls) := hcalls
      have hsum : valueSum (wantedCalls .counter wanted (calls ++ [call])) =
          valueSum (wantedCalls .counter wanted calls) +
            if wanted call then call.value.toRat else 0 := by
        rw [wantedCalls_concat h, valueSum, List.map_append, List.sum_append]
        cases wanted call <;> simp [valueSum]
      have hnonneg : 0 ≤ if wanted call then call.value.toRat else 0 := by
        split
        · exact hvalid.nonneg
        · exact le_rfl
      have hlt : valueSum (wantedCalls .counter wanted calls) < 2 ^ 64 := by
        rw [← hread]
        exact_mod_cast UInt64.toNat_lt _
      simp only [Answers, StaysRight, counterGet_concat, h, true_and, hsum]
      rw [toNat_add_eq_iff hread hnonneg]
      refine and_congr_right fun _ => ?_
      cases wanted call with
      | true => simp
      | false => simpa using hlt
  | rate =>
      have hread : ((runAdds calls : MetricsRegistry Double H).rateGet query).2 = _ := hcalls
      have hpassed : (!falsy call.value).toNat = if call.value.toRat ≠ 0 then 1 else 0 := by
        have hiff := falsy_iff hvalid.finite
        cases hfalsy : falsy call.value <;> simp [hfalsy] at hiff <;> simp [hiff]
      simp only [Answers, StaysRight, rateGet_concat, h, true_and, hread, wantedCalls_concat h]
      cases hsel : liveSelects query call.name <;> cases hw : wanted call <;> simp [hpassed]
      by_cases hvalue : call.value.toRat = 0 <;> simp [hvalue]
  | trend =>
      have hread : ((runAdds calls : MetricsRegistry Double H).trendStats query).elim 0
          TrendStats.count = _ := hcalls
      simp only [Answers, StaysRight, trendStats_concat, h, true_and, hread, wantedCalls_concat h]
      cases hsel : liveSelects query call.name <;> cases hw : wanted call <;> simp

variable (H)

theorem answers_nil (kind : ScriptMetric) (query : Str) (wanted : AddCall Double → Bool) :
    Answers H [] kind query wanted := by
  cases kind with
  | counter => simp [Answers, wantedCalls, valueSum, runAdds, MetricsRegistry.new,
      MetricsRegistry.counterGet]
  | rate => simp [Answers, wantedCalls, runAdds, MetricsRegistry.new, MetricsRegistry.rateGet]
  | trend => simp [Answers, wantedCalls, runAdds, MetricsRegistry.new, MetricsRegistry.trendStats]

/-! ## The objects of a script -/

/-- A metric object: its kind and the name it was made with. -/
structure MetricObject where
  kind : ScriptMetric
  name : Str
  deriving DecidableEq

def AddCall.object (call : AddCall Double) : MetricObject := ⟨call.kind, call.name⟩

def hasName (name : Str) (call : AddCall Double) : Bool := call.name = name

/-- The adds of a name whose tags contain one tag. -/
def hasTag (name : Str) (tag : Str × Str) (call : AddCall Double) : Bool :=
  call.name = name && call.tags.find? tag.1 = some tag.2

/-- Every object reads back what was added to it, and what was added to it with each tag. -/
def ReadsBack (objects : Set MetricObject) (calls : List (AddCall Double)) : Prop :=
  ∀ object ∈ objects, Answers H calls object.kind object.name (hasName object.name) ∧
    ∀ tag, WellFormedTag tag →
      Answers H calls object.kind (subsetQuery object.name tag) (hasTag object.name tag)

/-- No other object of its kind counts what is stored under a name. -/
def Apart (objects : Set MetricObject) (object : MetricObject) : Prop :=
  ∀ other ∈ objects, other.kind = object.kind → other.name ≠ object.name →
    liveSelects other.name object.name = false ∧
      ∀ tag, WellFormedTag tag → liveSelects (subsetQuery other.name tag) object.name = false

/-- A call on an object of its own, without tags, and on a counter a positive whole number that the
total has room for. -/
structure ExactCall (objects : Set MetricObject) (calls : List (AddCall Double))
    (call : AddCall Double) : Prop where
  whole : call.kind = .counter → ∃ n : ℕ, 0 < n ∧ call.value.toRat = n
  untagged : call.tags = ∅
  apart : Apart objects call.object
  fits : call.kind = .counter →
    valueSum (wantedCalls .counter (hasName call.name) (calls ++ [call])) < 2 ^ 64

variable {H} {objects : Set MetricObject}

theorem valueSum_nonneg {l : List (AddCall Double)} (h : ∀ call ∈ l, call.Valid) :
    0 ≤ valueSum l := by
  apply List.sum_nonneg
  intro v hv
  obtain ⟨call, hcall, rfl⟩ := List.mem_map.mp hv
  exact (h call hcall).nonneg

/-- The value of a counter call is part of the total of its name. -/
theorem value_lt_of_fits (hcalls : ∀ call ∈ calls, call.Valid) (hkind : call.kind = .counter)
    (h : valueSum (wantedCalls .counter (hasName call.name) (calls ++ [call])) < 2 ^ 64) :
    call.value.toRat < 2 ^ 64 := by
  have hnonneg : 0 ≤ valueSum (wantedCalls .counter (hasName call.name) calls) :=
    valueSum_nonneg fun c hc => hcalls c (List.mem_of_mem_filter hc)
  rw [wantedCalls_concat hkind] at h
  simp only [hasName, decide_true, if_true, valueSum, List.map_append, List.sum_append,
    List.map_cons, List.map_nil, List.sum_cons, List.sum_nil, add_zero] at h hnonneg
  linarith

/-- A read that should not count a call stays right exactly when it does not select it. -/
theorem staysRight_iff_of_not_wanted (hwanted : wanted call = false)
    (hcounted : kind = .counter → (counted call.value).toNat ≠ 0) :
    StaysRight calls call query wanted kind ↔ liveSelects query call.name = false := by
  cases kind with
  | counter =>
      have hne := hcounted rfl
      cases hsel : liveSelects query call.name <;> simp [StaysRight, hwanted, hsel, hne]
  | rate => simp [StaysRight, hwanted]
  | trend => simp [StaysRight, hwanted]

/-- A read that should count a call and does not select it goes wrong. -/
theorem not_staysRight_of_not_selects (hwanted : wanted call = true)
    (hsel : liveSelects query call.name = false) (hvalue : kind = .counter → call.value.toRat ≠ 0) :
    ¬StaysRight calls call query wanted kind := by
  cases kind with
  | counter =>
      have hne := hvalue rfl
      simp [StaysRight, hwanted, hsel, Ne.symm hne]
  | rate => simp [StaysRight, hwanted, hsel]
  | trend => simp [StaysRight, hwanted, hsel]

/-- A read that counts a call as it should stays right exactly when the cast keeps the value and the
total fits. -/
theorem staysRight_iff_of_selects (hwanted : wanted call = true)
    (hsel : liveSelects query call.name = true) :
    StaysRight calls call query wanted kind ↔ (kind = .counter →
      ((counted call.value).toNat : ℚ) = call.value.toRat ∧
        valueSum (wantedCalls .counter wanted (calls ++ [call])) < 2 ^ 64) := by
  cases kind with
  | counter => simp [StaysRight, hwanted, hsel]
  | rate => simp [StaysRight, hwanted, hsel]
  | trend => simp [StaysRight, hwanted, hsel]

theorem not_selects_subsetQuery_own {object : MetricObject} (hname : object.name = call.name)
    (tag : Str × Str) : liveSelects (subsetQuery object.name tag) call.name = false := by
  rw [hname]
  exact selects_subsetQuery_self call.name tag

/-- What right answers after a call say of the call. -/
theorem exactCall_of_readsBack (hvalid : ∀ c ∈ calls ++ [call], c.Valid)
    (hobject : call.object ∈ objects) (hcalls : ReadsBack H objects calls)
    (h : ReadsBack H objects (calls ++ [call])) : ExactCall objects calls call := by
  have hcall : call.Valid := hvalid call (by simp)
  have hbefore : ∀ c ∈ calls, c.Valid := fun c hc => hvalid c (List.mem_append_left _ hc)
  have hname {object : MetricObject} (hmem : object ∈ objects) (hkind : call.kind = object.kind) :
      StaysRight calls call object.name (hasName object.name) object.kind :=
    (answers_concat hkind hcall (hcalls object hmem).1).mp (h object hmem).1
  have htag {object : MetricObject} (hmem : object ∈ objects) (hkind : call.kind = object.kind)
      {tag : Str × Str} (hwell : WellFormedTag tag) :
      StaysRight calls call (subsetQuery object.name tag) (hasTag object.name tag) object.kind :=
    (answers_concat hkind hcall ((hcalls object hmem).2 tag hwell)).mp
      ((h object hmem).2 tag hwell)
  -- The read of the object itself gives the value, and that the total fits.
  have hself : hasName call.name call = true := decide_eq_true rfl
  have hread : StaysRight calls call call.name (hasName call.name) call.kind := hname hobject rfl
  have hown := (staysRight_iff_of_selects hself (selects_self call.name)).mp hread
  have hwhole (hkind : call.kind = .counter) : ∃ n : ℕ, 0 < n ∧ call.value.toRat = n := by
    have hlt := value_lt_of_fits hbefore hkind (hown hkind).2
    exact (counted_eq_iff hcall.finite hcall.nonneg hlt).mp (hown hkind).1
  have hvalue (hkind : call.kind = .counter) : call.value.toRat ≠ 0 := by
    obtain ⟨n, hpos, hn⟩ := hwhole hkind
    rw [hn]
    exact_mod_cast hpos.ne'
  have hcounted (hkind : call.kind = .counter) : (counted call.value).toNat ≠ 0 := by
    intro hzero
    have heq := (hown hkind).1
    rw [hzero] at heq
    exact hvalue hkind heq.symm
  refine ⟨hwhole, ?_, ?_, fun hkind => (hown hkind).2⟩
  · by_contra hne
    obtain ⟨a, ha⟩ := List.exists_mem_of_ne_nil _ ((tags_ne_empty_iff _).mp hne)
    have hfind := (SortedMap.find?_eq_some_iff call.tags a.1 a.2).mpr ha
    have hwanted : hasTag call.name a call = true := by simp [hasTag, hfind]
    exact not_staysRight_of_not_selects hwanted (selects_subsetQuery_self call.name a) hvalue
      (htag hobject rfl (hcall.tags a ha))
  · intro other hmem hkind hne
    have hkind' : call.kind = other.kind := hkind.symm
    have hnot : ¬call.name = other.name := fun heq => hne heq.symm
    refine ⟨?_, fun tag hwell => ?_⟩
    · exact (staysRight_iff_of_not_wanted (by simp [hasName, hnot])
        fun hk => hcounted (hkind'.trans hk)).mp (hname hmem hkind')
    · exact (staysRight_iff_of_not_wanted (by simp [hasTag, hnot])
        fun hk => hcounted (hkind'.trans hk)).mp (htag hmem hkind' hwell)

/-- An exact call keeps every answer right. -/
theorem readsBack_of_exactCall (hvalid : ∀ c ∈ calls ++ [call], c.Valid)
    (hcalls : ReadsBack H objects calls) (h : ExactCall objects calls call) :
    ReadsBack H objects (calls ++ [call]) := by
  have hcall : call.Valid := hvalid call (by simp)
  have hbefore : ∀ c ∈ calls, c.Valid := fun c hc => hvalid c (List.mem_append_left _ hc)
  have hcast (hkind : call.kind = .counter) : ((counted call.value).toNat : ℚ) = call.value.toRat :=
    (counted_eq_iff hcall.finite hcall.nonneg (value_lt_of_fits hbefore hkind (h.fits hkind))).mpr
      (h.whole hkind)
  have hcounted (hkind : call.kind = .counter) : (counted call.value).toNat ≠ 0 := by
    obtain ⟨n, hpos, hn⟩ := h.whole hkind
    have heq := hcast hkind
    rw [hn, Nat.cast_inj] at heq
    omega
  intro object hmem
  by_cases hkind : call.kind = object.kind
  · have hnever (hne : ¬object.name = call.name) := h.apart object hmem hkind.symm hne
    refine ⟨(answers_concat hkind hcall (hcalls object hmem).1).mpr ?_, fun tag hwell =>
      (answers_concat hkind hcall ((hcalls object hmem).2 tag hwell)).mpr ?_⟩
    · by_cases hname : object.name = call.name
      · rw [hname]
        refine (staysRight_iff_of_selects (by simp [hasName]) (selects_self call.name)).mpr
          fun hk => ?_
        exact ⟨hcast (hkind.trans hk), h.fits (hkind.trans hk)⟩
      · exact (staysRight_iff_of_not_wanted (by simpa [hasName, eq_comm] using hname)
          fun hk => hcounted (hkind.trans hk)).mpr (hnever hname).1
    · have hnotag : hasTag object.name tag call = false := by
        simp [hasTag, h.untagged]
      refine (staysRight_iff_of_not_wanted hnotag fun hk => hcounted (hkind.trans hk)).mpr ?_
      by_cases hname : object.name = call.name
      · exact not_selects_subsetQuery_own hname tag
      · exact (hnever hname).2 tag hwell
  · exact ⟨(answers_concat_of_ne hkind).mpr (hcalls object hmem).1, fun tag hwell =>
      (answers_concat_of_ne hkind).mpr ((hcalls object hmem).2 tag hwell)⟩

/-- Objects whose names are plain selectors are apart. -/
theorem apart_of_plain {object : MetricObject} (hobject : parse object.name = .ok ⟨object.name, ∅⟩)
    (h : ∀ other ∈ objects, parse other.name = .ok ⟨other.name, ∅⟩) : Apart objects object := by
  intro other hmem _ hne
  have hother := h other hmem
  constructor
  · simp [liveSelects, storedMatchesQuery, parseQuery, hother, hobject, Except.toOption,
      Ne.symm hne]
  · intro tag _
    unfold liveSelects storedMatchesQuery parseQuery
    cases hquery : parse (subsetQuery other.name tag) with
    | error e =>
        simp only [Except.toOption, beq_eq_false_iff_ne]
        intro heq
        have hclean := (wellFormed_of_parse hobject).name_clean
        rw [heq] at hclean
        exact (not_mem_of_not_containsReserved hclean).1 (by simp [subsetQuery])
    | ok q =>
        simp only [Except.toOption, hobject, Bool.and_eq_false_imp]
        intro _
        rw [← Bool.not_eq_true]
        intro hmatch
        have hle := colons_le_of_tagsMatch hmatch
        rw [← count_of_parse hquery, subsetQuery, pairText] at hle
        simp [colons] at hle

/-- In every state of a run each object reads back its adds, exactly when each call of the run is on
an object apart from the others and without tags, and adds a positive whole number that the counter
has room for. -/
theorem readsBack_iff_exactCalls (H : Type) [Histogram Double H] (objects : Set MetricObject)
    (calls : List (AddCall Double)) (h : ∀ call ∈ calls, call.Valid ∧ call.object ∈ objects) :
    (∀ run, run <+: calls → ReadsBack H objects run) ↔
      ∀ run call, run ++ [call] <+: calls → ExactCall objects run call := by
  constructor
  · intro hread run call hrun
    have hmem : ∀ c ∈ run ++ [call], c ∈ calls := fun c hc => hrun.subset hc
    apply exactCall_of_readsBack (H := H)
    · intro c hc
      exact (h c (hmem c hc)).1
    · exact (h call (hmem call (by simp))).2
    · exact hread run ((List.prefix_append run [call]).trans hrun)
    · exact hread _ hrun
  · intro hexact run hrun
    induction run using List.reverseRecOn with
    | nil => exact fun object _ => ⟨answers_nil H _ _ _, fun _ _ => answers_nil H _ _ _⟩
    | append_singleton run call ih =>
        apply readsBack_of_exactCall
        · intro c hc
          exact (h c (hrun.subset hc)).1
        · exact ih ((List.prefix_append run [call]).trans hrun)
        · exact hexact run call hrun

/-- Adds to two counters in turn. -/
def hitsAndMisses : List (AddCall Double) :=
  [⟨.counter, "hits".toList, ofNat 3, ∅⟩, ⟨.counter, "misses".toList, ofNat 2, ∅⟩,
    ⟨.counter, "hits".toList, ofNat 4, ∅⟩]

theorem readsBack_iff_exactCalls_hits :
    let objects : Set MetricObject := {⟨.counter, "hits".toList⟩, ⟨.counter, "misses".toList⟩}
    ∀ run, run <+: hitsAndMisses → ReadsBack Unit objects run := by
  intro objects
  have hplain : ∀ other ∈ objects, parse other.name = .ok ⟨other.name, ∅⟩ := by
    rintro other (rfl | rfl) <;> decide
  have hwhole : ∀ c ∈ hitsAndMisses, ∃ n : ℕ, 0 < n ∧ c.value.toRat = n := by
    rw [hitsAndMisses, List.forall_mem_cons, List.forall_mem_cons, List.forall_mem_singleton]
    exact ⟨⟨3, by decide, by decide +kernel⟩, ⟨2, by decide, by decide +kernel⟩,
      ⟨4, by decide, by decide +kernel⟩⟩
  have hplainCall : ∀ c ∈ hitsAndMisses, c.value.IsFinite ∧ c.tags = ∅ ∧ c.object ∈ objects := by
    rw [hitsAndMisses, List.forall_mem_cons, List.forall_mem_cons, List.forall_mem_singleton]
    exact ⟨⟨by decide +kernel, rfl, .inl rfl⟩, ⟨by decide +kernel, rfl, .inr rfl⟩,
      ⟨by decide +kernel, rfl, .inl rfl⟩⟩
  have hvalid : ∀ c ∈ hitsAndMisses, c.Valid ∧ c.object ∈ objects := by
    intro c hc
    obtain ⟨hfinite, htags, hobject⟩ := hplainCall c hc
    obtain ⟨n, -, hn⟩ := hwhole c hc
    refine ⟨⟨hfinite, hn ▸ n.cast_nonneg, fun a ha => ?_⟩, hobject⟩
    rw [htags] at ha
    cases ha
  refine (readsBack_iff_exactCalls Unit objects hitsAndMisses hvalid).mpr fun run c hrun => ?_
  have hc : c ∈ hitsAndMisses := hrun.subset (by simp)
  obtain ⟨-, htags, hobject⟩ := hplainCall c hc
  refine ⟨fun _ => hwhole c hc, htags, apart_of_plain (hplain _ hobject) hplain, fun _ => ?_⟩
  have hle : valueSum (wantedCalls .counter (hasName c.name) (run ++ [c])) ≤
      valueSum hitsAndMisses := by
    refine ((List.filter_sublist.trans hrun.sublist).map _).sum_le_sum fun v hv => ?_
    obtain ⟨d, hd, rfl⟩ := List.mem_map.mp hv
    exact (hvalid d hd).1.nonneg
  exact hle.trans_lt (by decide +kernel)

/-- A zero that is added to a counter counts as one. -/
theorem not_readsBack_zero :
    let call : AddCall Double := ⟨.counter, "hits".toList, zero, ∅⟩
    call.Valid ∧ ¬ReadsBack Unit {call.object} [call] := by
  intro call
  refine ⟨⟨by decide +kernel, by decide +kernel, fun a ha => by cases ha⟩, fun h => ?_⟩
  have hread := (h call.object rfl).1
  have hone : ((runAdds [call] : MetricsRegistry Double Unit).counterGet call.name).toNat = 1 := by
    decide +kernel
  have hzero : valueSum (wantedCalls .counter (hasName call.name) [call]) = 0 := by decide +kernel
  have heq : (((runAdds [call] : MetricsRegistry Double Unit).counterGet call.name).toNat : ℚ) =
      valueSum (wantedCalls .counter (hasName call.name) [call]) := hread
  rw [hone, hzero] at heq
  norm_num at heq

end

end K6Rs
