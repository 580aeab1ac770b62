import Mathlib.Tactic.Common

/-!
# Recursive descent over a list of tokens

A parser reads from the front of the remaining tokens or fails. Loops run on fuel; a loop whose
step consumes a token never lacks it. What a loop accepts is stated by the items it reads.
-/

namespace ProvenGraphcal

variable {τ ε α β σ : Type}

def TokenParser (τ ε α : Type) : Type := List τ → Except ε (α × List τ)

variable {items : List α} {rest tokens : List τ} {p read : TokenParser τ ε α} {a : α}
variable {r : α × List τ} {P : α → Prop} {f : α → TokenParser τ ε β}

namespace TokenParser

instance : Monad (TokenParser τ ε) where
  pure a := fun tokens => .ok (a, tokens)
  bind p f := fun tokens =>
    match p tokens with
    | .ok (a, rest) => f a rest
    | .error e => .error e

def fail (e : ε) : TokenParser τ ε α := fun _ => .error e

/-- A result that reads nothing. -/
def lift (result : Except ε α) : TokenParser τ ε α := fun tokens =>
  match result with
  | .ok a => .ok (a, tokens)
  | .error e => .error e

def ofOption (result : Option α) (e : ε) : TokenParser τ ε α := fun tokens =>
  match result with
  | some a => .ok (a, tokens)
  | none => .error e

def peek : TokenParser τ ε (Option τ) := fun tokens => .ok (tokens.head?, tokens)

/-- The tokens that are left. -/
def remaining : TokenParser τ ε (List τ) := fun tokens => .ok (tokens, tokens)

/-- Read one token that is accepted. -/
def token (accept : τ → Option α) (unexpected : Option τ → ε) : TokenParser τ ε α
  | [] => .error (unexpected none)
  | t :: rest =>
    match accept t with
    | some a => .ok (a, rest)
    | none => .error (unexpected (some t))

theorem bind_eq_ok {r : β × List τ} :
    (p >>= f) tokens = .ok r ↔ ∃ a mid, p tokens = .ok (a, mid) ∧ f a mid = .ok r := by
  show (match p tokens with
    | .ok (a, rest) => f a rest
    | .error e => .error e) = .ok r ↔ _
  cases h : p tokens with
  | ok pair =>
    obtain ⟨a, mid⟩ := pair
    constructor
    · intro hf
      exact ⟨a, mid, rfl, hf⟩
    · rintro ⟨a', mid', heq, hf⟩
      cases heq
      exact hf
  | error e => exact ⟨nofun, fun ⟨_, _, heq, _⟩ => (nomatch heq)⟩

@[simp] theorem pure_eq_ok :
    (pure a : TokenParser τ ε α) tokens = .ok r ↔ r = (a, tokens) := by
  show Except.ok (a, tokens) = .ok r ↔ _
  rw [Except.ok.injEq, eq_comm]

@[simp] theorem lift_eq_ok {result : Except ε α} :
    (lift result : TokenParser τ ε α) tokens = .ok r ↔ result = .ok r.1 ∧ r.2 = tokens := by
  obtain ⟨a, rest⟩ := r
  cases result with
  | ok b =>
    show Except.ok (b, tokens) = .ok (a, rest) ↔ _
    simp [eq_comm]
  | error e => exact ⟨nofun, fun h => (nomatch h.1)⟩

@[simp] theorem ofOption_eq_ok {result : Option α} {e : ε} :
    ofOption result e tokens = .ok r ↔ result = some r.1 ∧ r.2 = tokens := by
  obtain ⟨a, rest⟩ := r
  cases result with
  | some b =>
    show Except.ok (b, tokens) = .ok (a, rest) ↔ _
    simp [eq_comm]
  | none => exact ⟨nofun, fun h => (nomatch h.1)⟩

@[simp] theorem peek_eq_ok {r : Option τ × List τ} :
    (peek : TokenParser τ ε (Option τ)) tokens = .ok r ↔ r = (tokens.head?, tokens) := by
  rw [peek, Except.ok.injEq, eq_comm]

theorem token_eq_ok {accept : τ → Option α} {unexpected : Option τ → ε} :
    token accept unexpected tokens = .ok (a, rest) ↔
      ∃ t, tokens = t :: rest ∧ accept t = some a := by
  cases tokens with
  | nil => exact ⟨nofun, fun ⟨_, h, _⟩ => (nomatch h)⟩
  | cons t tokens =>
    rw [token]
    cases haccept : accept t with
    | none =>
      refine ⟨nofun, fun ⟨t', heq, ha⟩ => ?_⟩
      cases heq
      rw [haccept] at ha
      cases ha
    | some b =>
      constructor
      · intro h
        cases h
        exact ⟨t, rfl, haccept⟩
      · rintro ⟨t', heq, ha⟩
        cases heq
        rw [haccept] at ha
        cases ha
        rfl

/-- Success reads a token. -/
def Consumes (p : TokenParser τ ε α) : Prop :=
  ∀ tokens a rest, p tokens = .ok (a, rest) → rest.length < tokens.length

/-- Success reads on or stays. -/
def Advances (p : TokenParser τ ε α) : Prop :=
  ∀ tokens a rest, p tokens = .ok (a, rest) → rest.length ≤ tokens.length

theorem Consumes.advances (h : Consumes p) : Advances p :=
  fun tokens a rest hp => Nat.le_of_lt (h tokens a rest hp)

theorem Consumes.bind (hp : Consumes p) (hf : ∀ a, Advances (f a)) : Consumes (p >>= f) := by
  intro tokens b rest h
  obtain ⟨a, mid, hread, hnext⟩ := bind_eq_ok.mp h
  exact Nat.lt_of_le_of_lt (hf a mid b rest hnext) (hp tokens a mid hread)

theorem Advances.bind (hp : Advances p) (hf : ∀ a, Advances (f a)) : Advances (p >>= f) := by
  intro tokens b rest h
  obtain ⟨a, mid, hread, hnext⟩ := bind_eq_ok.mp h
  exact Nat.le_trans (hf a mid b rest hnext) (hp tokens a mid hread)

theorem Advances.bind_consumes (hp : Advances p) (hf : ∀ a, Consumes (f a)) :
    Consumes (p >>= f) := by
  intro tokens b rest h
  obtain ⟨a, mid, hread, hnext⟩ := bind_eq_ok.mp h
  exact Nat.lt_of_lt_of_le (hf a mid b rest hnext) (hp tokens a mid hread)

theorem advances_pure (a : α) : Advances (pure a : TokenParser τ ε α) := by
  intro tokens b rest h
  cases h
  exact Nat.le_refl _

theorem advances_ofOption (result : Option α) (e : ε) :
    Advances (ofOption result e : TokenParser τ ε α) := by
  intro tokens b rest h
  have hrest : rest = tokens := (ofOption_eq_ok.mp h).2
  exact Nat.le_of_eq (congrArg List.length hrest)

theorem advances_fail (e : ε) : Advances (fail e : TokenParser τ ε α) := by
  intro tokens b rest h
  cases h

theorem advances_peek : Advances (peek : TokenParser τ ε (Option τ)) := by
  intro tokens a rest h
  cases h
  exact Nat.le_refl _

theorem advances_remaining : Advances (remaining : TokenParser τ ε (List τ)) := by
  intro tokens a rest h
  cases h
  exact Nat.le_refl _

theorem consumes_token (accept : τ → Option α) (unexpected : Option τ → ε) :
    Consumes (token accept unexpected) := by
  intro tokens a rest h
  obtain ⟨t, rfl, -⟩ := token_eq_ok.mp h
  exact Nat.lt_succ_self rest.length

variable (stuck : ε) (stop : List τ → Bool)

def foldFuel (step : σ → TokenParser τ ε σ) : ℕ → σ → TokenParser τ ε σ
  | 0, _ => fail stuck
  | fuel + 1, s => fun tokens =>
    if stop tokens then .ok (s, tokens) else (step s >>= foldFuel step fuel) tokens

theorem foldFuel_succ (step : σ → TokenParser τ ε σ) (fuel : ℕ) (s : σ) :
    foldFuel stuck stop step (fuel + 1) s tokens =
      if stop tokens then .ok (s, tokens)
      else (step s >>= foldFuel stuck stop step fuel) tokens := rfl

/-- Step until the tokens stop the loop. -/
def foldUntil (step : σ → TokenParser τ ε σ) (s : σ) : TokenParser τ ε σ := fun tokens =>
  foldFuel stuck stop step (tokens.length + 1) s tokens

/-- The items that are read up to where a loop stops. -/
inductive ReadsUntil (read : TokenParser τ ε α) : List α → List τ → List τ → Prop
  | done {tokens : List τ} : stop tokens = true → ReadsUntil read [] tokens tokens
  | more {a : α} {items : List α} {tokens mid rest : List τ} : stop tokens = false →
    read tokens = .ok (a, mid) → ReadsUntil read items mid rest →
    ReadsUntil read (a :: items) tokens rest

variable {stuck stop}

/-- A loop reads items and folds them, when each step reads an item, checks it and folds it. -/
theorem foldUntil_reads {step : σ → TokenParser τ ε σ} {f : σ → α → σ}
    (hstep : ∀ s tokens s' rest, step s tokens = .ok (s', rest) →
      ∃ a, read tokens = .ok (a, rest) ∧ P a ∧ f s a = s') {s s' : σ}
    (h : foldUntil stuck stop step s tokens = .ok (s', rest)) :
    ∃ items, ReadsUntil stop read items tokens rest ∧ (∀ a ∈ items, P a) ∧
      items.foldl f s = s' := by
  have hfuel : ∀ fuel s tokens, foldFuel stuck stop step fuel s tokens = .ok (s', rest) →
      ∃ items, ReadsUntil stop read items tokens rest ∧ (∀ a ∈ items, P a) ∧
        items.foldl f s = s' := by
    intro fuel
    induction fuel with
    | zero => exact fun s tokens h => nomatch h
    | succ fuel ih =>
      intro s tokens h
      rw [foldFuel_succ] at h
      split at h
      · rename_i hstop
        cases h
        exact ⟨[], .done hstop, nofun, rfl⟩
      · rename_i hgo
        obtain ⟨next, mid, hnext, hrest⟩ := bind_eq_ok.mp h
        obtain ⟨a, ha, hP, rfl⟩ := hstep s tokens next mid hnext
        obtain ⟨items, hitems, hall, hfold⟩ := ih _ mid hrest
        exact ⟨a :: items, .more (Bool.not_eq_true _ ▸ hgo) ha hitems,
          List.forall_mem_cons.mpr ⟨hP, hall⟩, hfold⟩
  exact hfuel (tokens.length + 1) s tokens h

theorem ReadsUntil.forall_mem (hread : ∀ tokens a rest, read tokens = .ok (a, rest) → P a)
    (h : ReadsUntil stop read items tokens rest) : ∀ a ∈ items, P a := by
  induction h with
  | done _ => exact fun a ha => absurd ha List.not_mem_nil
  | more _ hok _ ih => exact List.forall_mem_cons.mpr ⟨hread _ _ _ hok, ih⟩

theorem ReadsUntil.length_le (hread : Advances read) (h : ReadsUntil stop read items tokens rest) :
    rest.length ≤ tokens.length := by
  induction h with
  | done _ => exact Nat.le_refl _
  | more _ hok _ ih => exact Nat.le_trans ih (hread _ _ _ hok)

/-! ## Lists of items -/

variable (stuck stop)

/-- Read items up to where the tokens stop the loop, behind some items. -/
def manyUntil (read : TokenParser τ ε α) (items : List α) : TokenParser τ ε (List α) :=
  foldUntil stuck stop (fun items => do return items ++ [← read]) items

variable {stuck stop}

theorem ReadsUntil.manyUntil {more : List α} (hread : Consumes read)
    (h : ReadsUntil stop read more tokens rest) :
    manyUntil stuck stop read items tokens = .ok (items ++ more, rest) := by
  have hfuel : ∀ fuel, tokens.length < fuel → ∀ items : List α,
      foldFuel stuck stop (fun items => do return items ++ [← read]) fuel items tokens =
        .ok (items ++ more, rest) := by
    induction h with
    | done hstop =>
      intro fuel hlength items
      cases fuel with
      | zero => exact absurd hlength (Nat.not_lt_zero _)
      | succ fuel => rw [foldFuel_succ, if_pos hstop, List.append_nil]
    | @more a more tokens mid rest hgo hok _ ih =>
      intro fuel hlength items
      cases fuel with
      | zero => exact absurd hlength (Nat.not_lt_zero _)
      | succ fuel =>
        have hshort := hread tokens a mid hok
        rw [foldFuel_succ, if_neg (Bool.eq_false_iff.mp hgo), bind_eq_ok]
        refine ⟨items ++ [a], mid, bind_eq_ok.mpr ⟨a, mid, hok, rfl⟩, ?_⟩
        rw [ih fuel (by omega), ← List.append_cons]
  exact hfuel _ (Nat.lt_succ_self _) items

theorem manyUntil_eq_ok (hread : Consumes read) {r : List α} :
    manyUntil stuck stop read items tokens = .ok (r, rest) ↔
      ∃ more, ReadsUntil stop read more tokens rest ∧ r = items ++ more := by
  refine ⟨fun h => ?_, fun ⟨more, hmore, hr⟩ => hr ▸ hmore.manyUntil hread⟩
  obtain ⟨more, hmore, -, rfl⟩ := foldUntil_reads (P := fun _ => True)
    (f := fun items a => items ++ [a]) (fun items tokens items' rest h => by
      obtain ⟨a, mid, hok, hitems⟩ := bind_eq_ok.mp h
      cases hitems
      exact ⟨a, hok, trivial, rfl⟩) h
  exact ⟨more, hmore, by simp [List.foldl_append_eq_append, ← List.flatMap_def]⟩

theorem advances_manyUntil (hread : Consumes read) (items : List α) :
    Advances (manyUntil stuck stop read items) := by
  intro tokens r rest h
  obtain ⟨more, hmore, -⟩ := (manyUntil_eq_ok hread).mp h
  exact hmore.length_le hread.advances

variable (stuck) (isSeparator : τ → Bool) (closes : List τ → Bool)

/-- No separator follows, or only one before the list closes. -/
def endsSeparated : List τ → Bool
  | [] => true
  | t :: rest => !isSeparator t || closes rest

def skipSeparator : TokenParser τ ε Unit
  | [] => .ok ((), [])
  | t :: rest => .ok ((), if isSeparator t then rest else t :: rest)

/-- Items with separators between them; after a separator the list may close. -/
def separated (p : TokenParser τ ε α) : TokenParser τ ε (List α) := do
  let first ← p
  let items ← manyUntil stuck (endsSeparated isSeparator closes)
    (do skipSeparator isSeparator; p) [first]
  skipSeparator isSeparator
  return items

variable {stuck isSeparator closes}

theorem advances_skipSeparator :
    Advances (skipSeparator isSeparator : TokenParser τ ε Unit) := by
  intro tokens a rest h
  cases tokens with
  | nil =>
    cases h
    exact Nat.le_refl _
  | cons t tokens =>
    rw [skipSeparator, Except.ok.injEq, Prod.mk.injEq] at h
    rw [← h.2]
    split
    · exact Nat.le_succ _
    · exact Nat.le_refl _

theorem separated_eq_ok (hp : Consumes p) :
    separated stuck isSeparator closes p tokens = .ok (items, rest) ↔
      ∃ first mid more last, p tokens = .ok (first, mid) ∧
        ReadsUntil (endsSeparated isSeparator closes) (do skipSeparator isSeparator; p) more mid
          last ∧
        (skipSeparator isSeparator : TokenParser τ ε Unit) last = .ok ((), rest) ∧
        items = first :: more := by
  have hread : Consumes (do skipSeparator isSeparator; p : TokenParser τ ε α) :=
    advances_skipSeparator.bind_consumes fun _ => hp
  rw [separated, bind_eq_ok]
  simp only [bind_eq_ok, pure_eq_ok, manyUntil_eq_ok hread, Prod.mk.injEq, List.singleton_append]
  constructor
  · rintro ⟨first, mid, hfirst, _, last, ⟨more, hmore, rfl⟩, _, _, hskip, rfl, rfl⟩
    exact ⟨first, mid, more, last, hfirst, hmore, hskip, rfl⟩
  · rintro ⟨first, mid, more, last, hfirst, hmore, hskip, rfl⟩
    exact ⟨first, mid, hfirst, _, last, ⟨more, hmore, rfl⟩, (), rest, hskip, rfl, rfl⟩

theorem consumes_separated (hp : Consumes p) :
    Consumes (separated stuck isSeparator closes p) := by
  intro tokens items rest h
  obtain ⟨first, mid, more, last, hfirst, hmore, hskip, -⟩ := (separated_eq_ok hp).mp h
  have hmid := hp tokens first mid hfirst
  have hlast := hmore.length_le (advances_skipSeparator.bind fun _ => hp.advances)
  have hrest := advances_skipSeparator last () rest hskip
  omega

theorem separated_ne_nil (hp : Consumes p)
    (h : separated stuck isSeparator closes p tokens = .ok (items, rest)) : items ≠ [] := by
  obtain ⟨first, _, more, _, _, _, _, rfl⟩ := (separated_eq_ok hp).mp h
  exact List.cons_ne_nil first more

/-- One item, before a token that separates nothing. -/
theorem separated_singleton (hp : Consumes p) {t : τ} (ht : isSeparator t = false)
    (h : p tokens = .ok (a, t :: rest)) :
    separated stuck isSeparator (fun _ => false) p tokens = .ok ([a], t :: rest) := by
  refine (separated_eq_ok hp).mpr ⟨a, t :: rest, [], t :: rest, h, .done ?_, ?_, rfl⟩
  · simp [endsSeparated, ht]
  · simp [skipSeparator, ht]

/-- Items add to a list, by their number. -/
theorem foldl_numbered (f : ℕ → α → List β) (items : List α) (s : List β × ℕ) :
    items.foldl (fun s a => (s.1 ++ f s.2 a, s.2 + 1)) s =
      (s.1 ++ (items.zipIdx s.2).flatMap (fun item => f item.2 item.1), s.2 + items.length) := by
  induction items generalizing s with
  | nil => simp
  | cons a items ih =>
    rw [List.foldl_cons, ih, List.zipIdx_cons, List.flatMap_cons, List.length_cons]
    simp only [List.append_assoc, Nat.add_assoc, Nat.add_comm 1]

/-- A loop that reads items, checks each and adds what it yields. -/
theorem foldUntil_append {step : List β → TokenParser τ ε (List β)} {f : α → List β}
    (hstep : ∀ s tokens s' rest, step s tokens = .ok (s', rest) →
      ∃ a, read tokens = .ok (a, rest) ∧ P a ∧ s ++ f a = s') {r : List β}
    (h : foldUntil stuck stop step [] tokens = .ok (r, rest)) :
    ∃ items, ReadsUntil stop read items tokens rest ∧ (∀ a ∈ items, P a) ∧
      r = items.flatMap f := by
  obtain ⟨items, hitems, hall, rfl⟩ := foldUntil_reads hstep h
  exact ⟨items, hitems, hall, by simp [List.foldl_append_eq_append, List.flatMap_def]⟩

/-- A loop that also numbers the items. -/
theorem foldUntil_numbered {step : List β × ℕ → TokenParser τ ε (List β × ℕ)}
    {f : ℕ → α → List β} (hstep : ∀ s tokens s' rest, step s tokens = .ok (s', rest) →
      ∃ a, read tokens = .ok (a, rest) ∧ P a ∧ (s.1 ++ f s.2 a, s.2 + 1) = s') {r : List β × ℕ}
    (h : foldUntil stuck stop step ([], 0) tokens = .ok (r, rest)) :
    ∃ items, ReadsUntil stop read items tokens rest ∧ (∀ a ∈ items, P a) ∧
      r = (items.zipIdx.flatMap fun item => f item.2 item.1, items.length) := by
  obtain ⟨items, hitems, hall, rfl⟩ := foldUntil_reads hstep h
  exact ⟨items, hitems, hall, by simp [foldl_numbered]⟩

end TokenParser

end ProvenGraphcal
