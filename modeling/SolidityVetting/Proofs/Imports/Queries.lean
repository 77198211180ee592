import SolidityVetting.Proofs.Imports.Closure

set_option autoImplicit false

namespace SolidityVetting.Closure

variable {resolve other : Resolver} {importer path unit : String} {p q : Progress}

def asked? (importer : String) (p : Progress) (path : String) : Option String :=
  match Import.unit? importer path with
  | none => none
  | some unit => if p.units.contains unit || p.unresolved.contains unit then none else some unit

def askedOver (resolve : Resolver) (importer : String) : Progress → List String → List String
  | _, [] => []
  | p, path :: rest =>
    (asked? importer p path).toList ++
      askedOver resolve importer (takeUp resolve importer p path) rest

structure Round where
  read : String
  asked : List String

def trace (resolve : Resolver) : (rounds : Nat) → Progress → List Round
  | 0, _ => []
  | rounds + 1, p =>
    match p.pending with
    | [] => []
    | importer :: rest =>
      ⟨importer, askedOver resolve importer { p with pending := rest }
        (Import.paths ((p.units.get? importer).getD ""))⟩ :: trace resolve rounds (step resolve p)

def readIn (rounds : List Round) : List String := rounds.map (·.read)

def askedIn (rounds : List Round) : List String := rounds.flatMap (·.asked)

def serves (resolve : Resolver) (unit : String) : Bool := (resolve unit).isOk

def Knows (p : Progress) (unit : String) : Prop := unit ∈ p.units.names ∨ unit ∈ p.unresolved

theorem Grows.knows (h : Grows p q) (known : Knows p unit) : Knows q unit :=
  known.imp h.mem_names (h.noted unit)

theorem asked?_of_climbs (up : Import.unit? importer path = none) :
    asked? importer p path = none := by
  unfold asked?
  rw [up]

theorem asked?_of_known (found : Import.unit? importer path = some unit) (known : Knows p unit) :
    asked? importer p path = none := by
  have before : (p.units.contains unit || p.unresolved.contains unit) = true := by
    rwa [Bool.or_eq_true, NameMap.contains_iff, List.contains_iff_mem]
  unfold asked?
  rw [found]
  exact if_pos before

theorem asked?_of_new (found : Import.unit? importer path = some unit) (new : ¬ Knows p unit) :
    asked? importer p path = some unit := by
  have before : ¬ (p.units.contains unit || p.unresolved.contains unit) = true := by
    rwa [Bool.or_eq_true, NameMap.contains_iff, List.contains_iff_mem]
  unfold asked?
  rw [found]
  exact if_neg before

/-- Asking for these units leads from the first progress to the second: each is new when the resolver
is asked for it and known from then on, and those that are served are added. -/
structure Asks (resolve : Resolver) (p : Progress) (asked : List String) (q : Progress) : Prop where
  names : q.units.names.Perm (p.units.names ++ asked.filter (serves resolve))
  once : asked.Nodup
  new : ∀ unit ∈ asked, ¬ Knows p unit
  known : ∀ unit ∈ asked, Knows q unit
  kept : ∀ unit, Knows p unit → Knows q unit

theorem Asks.refl (resolve : Resolver) (p : Progress) : Asks resolve p [] p where
  names := by simp
  once := List.nodup_nil
  new _ h := absurd h List.not_mem_nil
  known _ h := absurd h List.not_mem_nil
  kept _ h := h

theorem Asks.trans {r : Progress} {asked more : List String} (first : Asks resolve p asked q)
    (second : Asks resolve q more r) : Asks resolve p (asked ++ more) r where
  names := by
    rw [List.filter_append, ← List.append_assoc]
    exact second.names.trans (first.names.append_right _)
  once := by
    refine List.nodup_append.2 ⟨first.once, second.once, fun unit hu other ho same => ?_⟩
    exact second.new other ho (same ▸ first.known unit hu)
  new unit hu := by
    obtain hu | hu := List.mem_append.1 hu
    · exact first.new unit hu
    · exact fun known => second.new unit hu (first.kept unit known)
  known unit hu := by
    obtain hu | hu := List.mem_append.1 hu
    · exact second.kept unit (first.known unit hu)
    · exact second.known unit hu
  kept unit known := second.kept unit (first.kept unit known)

theorem asks_one (new : ¬ Knows p unit) (known : Knows q unit)
    (kept : ∀ unit, Knows p unit → Knows q unit)
    (names : q.units.names.Perm (p.units.names ++ [unit].filter (serves resolve))) :
    Asks resolve p [unit] q where
  names := names
  once := List.pairwise_singleton _ unit
  new _ ho := List.mem_singleton.1 ho ▸ new
  known _ ho := List.mem_singleton.1 ho ▸ known
  kept := kept

theorem asks_takeUp (resolve : Resolver) (importer path : String) (p : Progress) :
    Asks resolve p (asked? importer p path).toList (takeUp resolve importer p path) ∧
      (takeUp resolve importer p path).pending =
        p.pending ++ (asked? importer p path).toList.filter (serves resolve) := by
  have taken := taken_takeUp resolve importer path p
  have kept (unit : String) : Knows p unit → Knows (takeUp resolve importer p path) unit :=
    taken.grows.knows
  generalize takeUp resolve importer p path = q at taken kept
  cases taken with
  | noted up _ =>
    rw [asked?_of_climbs up]
    exact ⟨.refl resolve p, (List.append_nil _).symm⟩
  | climbs up _ =>
    rw [asked?_of_climbs up]
    refine ⟨?_, (List.append_nil _).symm⟩
    exact { Asks.refl resolve p with kept := kept, known := fun _ h => absurd h List.not_mem_nil }
  | known found before =>
    rw [asked?_of_known found before]
    exact ⟨.refl resolve p, (List.append_nil _).symm⟩
  | @served unit text found new unnoted answer =>
    have served : serves resolve unit = true := by
      rw [serves, answer]
      rfl
    rw [asked?_of_new found (not_or.2 ⟨new, unnoted⟩)]
    refine ⟨asks_one (not_or.2 ⟨new, unnoted⟩) ?_ kept ?_, ?_⟩
    · exact .inl ((NameMap.mem_names_insert_iff ..).2 (.inl rfl))
    · rw [List.filter_cons_of_pos served, List.filter_nil]
      exact (NameMap.names_insert_perm new text).trans (List.perm_append_singleton ..).symm
    · simp [served]
  | @refused unit refusal found new unnoted answer =>
    have refused : serves resolve unit = false := by
      rw [serves, answer]
      rfl
    rw [asked?_of_new found (not_or.2 ⟨new, unnoted⟩)]
    refine ⟨asks_one (not_or.2 ⟨new, unnoted⟩) ?_ kept ?_, ?_⟩
    · exact .inr (List.mem_append_right _ List.mem_cons_self)
    · simp [refused]
    · simp [refused]

theorem asks_foldl (resolve : Resolver) (importer : String) (paths : List String) (p : Progress) :
    Asks resolve p (askedOver resolve importer p paths) (paths.foldl (takeUp resolve importer) p) ∧
      (paths.foldl (takeUp resolve importer) p).pending =
        p.pending ++ (askedOver resolve importer p paths).filter (serves resolve) := by
  induction paths generalizing p with
  | nil => exact ⟨.refl resolve p, (List.append_nil _).symm⟩
  | cons path rest ih =>
    have ⟨here, queued⟩ := asks_takeUp resolve importer path p
    have ⟨later, queued'⟩ := ih (takeUp resolve importer p path)
    refine ⟨here.trans later, ?_⟩
    rw [List.foldl_cons, queued', queued, askedOver, List.filter_append, List.append_assoc]

theorem step_cons {rest : List String} (front : p.pending = importer :: rest) :
    step resolve p = (Import.paths ((p.units.get? importer).getD "")).foldl
      (takeUp resolve importer) { p with pending := rest } := by
  unfold step
  rw [front]

theorem trace_cons {rest : List String} (front : p.pending = importer :: rest) (rounds : Nat) :
    trace resolve (rounds + 1) p =
      ⟨importer, askedOver resolve importer { p with pending := rest }
        (Import.paths ((p.units.get? importer).getD ""))⟩ :: trace resolve rounds (step resolve p) := by
  rw [trace, front]

theorem trace_of_pending_eq_nil (h : p.pending = []) (rounds : Nat) :
    trace resolve rounds p = [] := by
  cases rounds with
  | zero => rfl
  | succ rounds => rw [trace, h]

theorem run_of_pending_eq_nil (h : p.pending = []) (rounds : Nat) :
    run resolve rounds p = some p := by
  unfold run
  rw [if_pos (List.isEmpty_iff.2 h)]

theorem run_succ {rest : List String} (front : p.pending = importer :: rest) (rounds : Nat) :
    run resolve (rounds + 1) p = run resolve rounds (step resolve p) := by
  rw [run, if_neg]
  simp [front]

theorem run_zero {rest : List String} (front : p.pending = importer :: rest) :
    run resolve 0 p = none := by
  rw [run, if_neg]
  simp [front]

theorem asks_run {rounds : Nat} (ended : run resolve rounds p = some q) :
    Asks resolve p (askedIn (trace resolve rounds p)) q ∧
      (readIn (trace resolve rounds p)).Perm
        (p.pending ++ (askedIn (trace resolve rounds p)).filter (serves resolve)) := by
  induction rounds generalizing p with
  | zero =>
    cases front : p.pending with
    | nil =>
      rw [run_of_pending_eq_nil front] at ended
      cases ended
      exact ⟨.refl resolve _, .nil⟩
    | cons importer rest =>
      rw [run_zero front] at ended
      cases ended
  | succ rounds ih =>
    cases front : p.pending with
    | nil =>
      rw [run_of_pending_eq_nil front] at ended
      cases ended
      rw [trace_of_pending_eq_nil front]
      exact ⟨.refl resolve _, .nil⟩
    | cons importer rest =>
      rw [run_succ front] at ended
      obtain ⟨later, read⟩ := ih ended
      have ⟨here, queued⟩ := asks_foldl resolve importer
        (Import.paths ((p.units.get? importer).getD "")) { p with pending := rest }
      rw [← step_cons front] at here queued
      rw [queued] at read
      rw [trace_cons front]
      -- what is pending makes no difference to what is known
      have popped : Asks resolve p _ (step resolve p) := { here with }
      refine ⟨popped.trans later, ?_⟩
      change (importer :: readIn (trace resolve rounds (step resolve p))).Perm
        (importer :: rest ++ List.filter (serves resolve) (_ ++ askedIn _))
      rw [List.filter_append, List.cons_append, ← List.append_assoc]
      exact read.cons importer

theorem run_eq_some_iff {rounds : Nat} (ended : run resolve rounds p = some q) (others : Nat) :
    run resolve others p = some q ↔ (trace resolve rounds p).length ≤ others := by
  induction rounds generalizing p others with
  | zero =>
    cases front : p.pending with
    | nil =>
      rw [run_of_pending_eq_nil front] at ended ⊢
      exact ⟨fun _ => Nat.zero_le _, fun _ => ended⟩
    | cons importer rest =>
      rw [run_zero front] at ended
      cases ended
  | succ rounds ih =>
    cases front : p.pending with
    | nil =>
      rw [run_of_pending_eq_nil front] at ended ⊢
      rw [trace_of_pending_eq_nil front]
      exact ⟨fun _ => Nat.zero_le _, fun _ => ended⟩
    | cons importer rest =>
      rw [run_succ front] at ended
      rw [trace_cons front, List.length_cons]
      cases others with
      | zero => simp [run_zero front]
      | succ others =>
        rw [run_succ front, ih ended others]
        exact Nat.succ_le_succ_iff.symm

theorem takeUp_congr (agree : ∀ unit ∈ asked? importer p path, other unit = resolve unit) :
    takeUp other importer p path = takeUp resolve importer p path := by
  unfold takeUp
  unfold asked? at agree
  split
  · rfl
  · next unit found =>
    rw [found] at agree
    dsimp only at agree
    split
    · rfl
    · next new =>
      rw [if_neg new] at agree
      rw [agree unit rfl]

theorem foldl_takeUp_congr {paths : List String}
    (agree : ∀ unit ∈ askedOver resolve importer p paths, other unit = resolve unit) :
    paths.foldl (takeUp other importer) p = paths.foldl (takeUp resolve importer) p ∧
      askedOver other importer p paths = askedOver resolve importer p paths := by
  induction paths generalizing p with
  | nil => exact ⟨rfl, rfl⟩
  | cons path rest ih =>
    have here : takeUp other importer p path = takeUp resolve importer p path :=
      takeUp_congr fun unit hu => agree unit (List.mem_append_left _ (Option.mem_toList.2 hu))
    have ⟨later, asked⟩ := ih fun unit hu => agree unit (List.mem_append_right _ hu)
    rw [List.foldl_cons, List.foldl_cons, askedOver, askedOver, here]
    exact ⟨later, congrArg _ asked⟩

/-- A resolver that answers alike for the units asked for leads through the same rounds. -/
theorem run_congr {rounds : Nat}
    (agree : ∀ unit ∈ askedIn (trace resolve rounds p), other unit = resolve unit) :
    run other rounds p = run resolve rounds p ∧ trace other rounds p = trace resolve rounds p := by
  induction rounds generalizing p with
  | zero =>
    unfold run
    exact ⟨rfl, rfl⟩
  | succ rounds ih =>
    cases front : p.pending with
    | nil =>
      rw [run_of_pending_eq_nil front, run_of_pending_eq_nil front, trace_of_pending_eq_nil front,
        trace_of_pending_eq_nil front]
      exact ⟨rfl, rfl⟩
    | cons importer rest =>
      rw [trace_cons front] at agree
      obtain ⟨here, asked⟩ := foldl_takeUp_congr fun unit hu =>
        agree unit (List.mem_append_left _ hu)
      rw [← step_cons front, ← step_cons front] at here
      obtain ⟨later, behind⟩ := ih fun unit hu => agree unit (List.mem_append_right _ hu)
      rw [run_succ front, run_succ front, trace_cons front, trace_cons front, here, asked]
      exact ⟨later, congrArg _ behind⟩

/-- The rounds lead from the sources to the progress. Every unit that is there at the end is read in
one round and every unit is asked for at most once; what is served is there at the end and what is
refused is noted. With any resolver that answers alike what is asked, the run takes these rounds. -/
structure Expands (resolve : Resolver) (sources : Sources) (rounds : List Round) (p : Progress) :
    Prop where
  read : (readIn rounds).Perm p.units.names
  read_once : (readIn rounds).Nodup
  asked_once : (askedIn rounds).Nodup
  asked_new : ∀ unit ∈ askedIn rounds, unit ∉ sources.names
  names : p.units.names.Perm (sources.names ++ (askedIn rounds).filter (serves resolve))
  refused : ∀ unit ∈ askedIn rounds, serves resolve unit = false → unit ∈ p.unresolved
  length : rounds.length = sources.size + ((askedIn rounds).filter (serves resolve)).length
  ends : ∀ other : Resolver, (∀ unit ∈ askedIn rounds, other unit = resolve unit) →
    ∀ n, run other n (start sources) = some p ↔ rounds.length ≤ n

theorem expands_of_run {sources : Sources} {n : Nat}
    (ended : run resolve n (start sources) = some p) :
    Expands resolve sources (trace resolve n (start sources)) p := by
  have ⟨asks, read⟩ := asks_run ended
  have all : (readIn (trace resolve n (start sources))).Perm p.units.names := read.trans asks.names.symm
  have new : ∀ unit ∈ askedIn (trace resolve n (start sources)), unit ∉ sources.names :=
    fun unit hu here => asks.new unit hu (.inl here)
  constructor
  case read => exact all
  case read_once => exact all.nodup_iff.2 (NameMap.names_nodup p.units)
  case asked_once => exact asks.once
  case asked_new => exact new
  case names => exact asks.names
  case refused =>
    intro unit hu refused
    refine (asks.known unit hu).resolve_left fun here => ?_
    obtain source | served := List.mem_append.1 (asks.names.mem_iff.1 here)
    · exact new unit hu source
    · rw [(List.mem_filter.1 served).2] at refused
      cases refused
  case length =>
    have length := read.length_eq
    have names : sources.names.length = sources.size := List.length_map ..
    rw [readIn, List.length_map, List.length_append] at length
    rw [← names]
    exact length
  case ends =>
    intro other agree others
    have ⟨same, rounds⟩ := run_congr agree
    rw [run_eq_some_iff (same.trans ended), rounds]

/-- If only so many units can be served, the expansion of the sources ends, and its outcome is that of
a run that reads every unit once and asks for none twice. -/
theorem complete_asks_once {servable : List String}
    (covers : ∀ unit text, resolve unit = .ok text → unit ∈ servable) (sources : Sources) :
    ∃ p, complete resolve servable.length sources = outcome p ∧
      Expands resolve sources
        (trace resolve (sources.size + servable.length) (start sources)) p := by
  have enough := remaining_start_le servable sources
  obtain ⟨p, ended⟩ := Option.isSome_iff_exists.1 (run_isSome covers enough)
  exact ⟨p, complete_of_run ended, expands_of_run ended⟩

theorem complete_asks_once_cycle :
    let sources : Sources := .ofList [("Token.sol", "import \"./Base.sol\";")]
    let resolve : Resolver := fun unit =>
      if unit = "Base.sol" then .ok "import \"./Token.sol\";" else .error (.missing unit)
    (∀ unit text, resolve unit = .ok text → unit ∈ ["Base.sol"]) ∧
      ∃ p, complete resolve 1 sources = outcome p ∧
        Expands resolve sources (trace resolve 2 (start sources)) p ∧
        "Base.sol" ∈ readIn (trace resolve 2 (start sources)) := by
  intro sources resolve
  have covers : ∀ unit text, resolve unit = .ok text → unit ∈ ["Base.sol"] := by
    intro unit text answer
    rw [List.mem_singleton]
    by_cases same : unit = "Base.sol"
    · exact same
    · simp [resolve, same] at answer
  obtain ⟨p, completed, expands⟩ := complete_asks_once covers sources
  refine ⟨covers, p, completed, expands, expands.read.mem_iff.2 ?_⟩
  have ended := (expands.ends resolve (fun _ _ => rfl) _).2 (Nat.le_refl _)
  have finished := finished_of_run ended
  have plain : ∀ name ∈ sources.names, Import.Plain name := by
    intro name hm
    obtain rfl : name = "Token.sol" := List.mem_singleton.1 hm
    unfold Import.Plain
    decide
  have down : Import.paths "import \"./Base.sol\";" = ["./Base.sol"] :=
    Import.paths_eq_singleton (by decide +kernel)
  have token : Reached resolve sources "Token.sol" "import \"./Base.sol\";" := .source (by decide)
  have base : Reached resolve sources "Base.sol" "import \"./Token.sol\";" :=
    .served token (down ▸ List.mem_cons_self) (by decide) (by decide) rfl
  exact NameMap.mem_names_of_get? (finished.get?_of_reached (finished.clear_of_plain plain) base)

end SolidityVetting.Closure
