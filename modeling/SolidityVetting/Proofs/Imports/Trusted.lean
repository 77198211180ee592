import SolidityVetting.Proofs.Imports.Closure
import SolidityVetting.Proofs.Imports.Tree
import SolidityVetting.Proofs.Text.Utf8

set_option autoImplicit false

namespace SolidityVetting.TrustedImports

variable {name unit path text : String} {roots : List (Option Tree)} {longest : Nat}

/-- The unit lies in the namespace, below its directory in a search path, and has the text of the
file that stands there in the first search path that lacks none of the names. -/
structure Confined (name : String) (roots : List (Option Tree)) (unit text : String) : Prop where
  begins : ∃ rest, unit = (if name.toList.getLast? = some '/' then name else name ++ "/") ++ rest
  no_backslash : '\\' ∉ unit.toList
  plain : Import.Plain unit
  relative : unit.toList.head? ≠ some '/'
  below : ∃ inner, inner ≠ [] ∧ Tree.namesIn unit = Tree.namesIn name ++ inner
  found : ∃ front root back, roots = front ++ some root :: back ∧
    (∀ before, some before ∈ front → before.Misses (Tree.namesIn unit)) ∧
    root.Holds (Utf8.encode text) (Tree.namesIn unit)

theorem of_search (h : search longest path roots = .ok text) :
    ∃ front root back, roots = front ++ some root :: back ∧
      (∀ before, some before ∈ front → before.Misses (Tree.namesIn path)) ∧
      root.walk (Import.segments path.toList) = .file (Utf8.encode text) := by
  induction roots with
  | nil => cases h
  | cons first rest ih =>
    unfold search at h
    split at h
    · next missing =>
      obtain ⟨front, root, back, rfl, lacking, found⟩ := ih h
      refine ⟨first :: front, root, back, rfl, ?_, found⟩
      intro before hm
      obtain rfl | hm := List.mem_cons.1 hm
      · exact Tree.misses_of_openPath missing
      · exact lacking before hm
    · cases h
    · next bytes opened =>
      split at h
      · next read =>
        cases h
        obtain ⟨root, rfl, found⟩ := Tree.walk_of_openPath opened
        rw [Utf8.eq_encode_of_decode? read] at found
        exact ⟨[], root, rest, rfl, fun _ hm => absurd hm List.not_mem_nil, found⟩
      · cases h

theorem of_resolve {t : TrustedImports} (h : t.resolve path = .ok text) :
    (∃ rest, path.toList = t.scope.toList ++ rest) ∧ mayEscape path.toList = false ∧
      search t.longest path t.roots = .ok text := by
  unfold resolve at h
  split at h
  · cases h
  · next covered =>
    split at h
    · cases h
    · next safe =>
      rw [Bool.not_eq_true, Option.isNone_eq_false_iff, Option.isSome_iff_exists] at covered
      obtain ⟨rest, starts⟩ := covered
      rw [Bool.not_eq_true] at safe
      exact ⟨⟨rest, (Text.dropStart?_eq_some_iff _ _ _).1 starts⟩, safe, h⟩

theorem mayEscape_eq_false_iff {path : List Char} :
    mayEscape path = false ↔ '\\' ∉ path ∧ ['.', '.'] ∉ Import.segments path ∧
      (Import.segments path).head? ≠ some ['.'] ∧ path.head? ≠ some '/' := by
  unfold mayEscape
  simp only [Bool.or_eq_false_iff, beq_eq_false_iff_ne, List.contains_eq_mem,
    decide_eq_false_iff_not, and_assoc]

theorem scope_ofNamespace (name : String) (roots : List (Option Tree)) (longest : Nat) :
    ∃ directory, (ofNamespace name roots longest).scope.toList = directory ++ ['/'] ∧
      Tree.names (Import.segments directory) = Tree.namesIn name := by
  unfold ofNamespace
  dsimp only
  split
  · next closed =>
    obtain ⟨directory, same⟩ := List.getLast?_eq_some_iff.1 closed
    refine ⟨directory, same, ?_⟩
    unfold Tree.namesIn Import.segments
    rw [same, Text.pieces_append_cons (by decide), Tree.names_append]
    exact (List.append_nil _).symm
  · exact ⟨name.toList, String.toList_append, rfl⟩

theorem confined_of_resolve (h : (ofNamespace name roots longest).resolve unit = .ok text) :
    Confined name roots unit text := by
  obtain ⟨⟨rest, starts⟩, safe, found⟩ := of_resolve h
  obtain ⟨no_backslash, plain, -, relative⟩ := mayEscape_eq_false_iff.1 safe
  obtain ⟨directory, scope, named⟩ := scope_ofNamespace name roots longest
  obtain ⟨front, root, back, parts, lacking, walked⟩ := of_search found
  have segments : Import.segments unit.toList =
      Import.segments directory ++ Import.segments rest := by
    rw [starts, scope, List.append_assoc]
    exact Text.pieces_append_cons (by decide) directory rest
  refine ⟨?_, no_backslash, plain, relative, ?_, ?_⟩
  · refine ⟨String.ofList rest, ?_⟩
    apply String.toList_inj.1
    rw [starts, String.toList_append, String.toList_ofList]
    rfl
  · refine ⟨Tree.names (Import.segments rest), ?_, ?_⟩
    · rw [segments] at walked
      exact Tree.names_ne_nil_of_walk_append (Text.pieces_ne_nil _ rest) walked
    · rw [Tree.namesIn, segments, Tree.names_append, named]
  · exact ⟨front, root, back, parts, lacking, Tree.holds_of_walk walked⟩

/-- Completing sources adds only units that are confined to the trusted namespace. -/
theorem confined_of_complete {servable : Nat} {sources completed : Sources}
    (h : Closure.complete (ofNamespace name roots longest).resolve servable sources = .ok completed)
    (here : completed.get? unit = some text) (added : sources.get? unit = none) :
    Confined name roots unit text :=
  confined_of_resolve (Closure.resolve_eq_of_complete h here added)

theorem confined_of_complete_third :
    let tree : Tree :=
      .directory [("@oz", .directory [("A.sol", .file (Utf8.encode "contract A {}"))])]
    let roots := [none, some (.directory []), some tree]
    let sources : Sources := .ofList [("Token.sol", "import \"@oz/A.sol\";")]
    ∃ completed, Closure.complete (ofNamespace "@oz" roots).resolve 1 sources = .ok completed ∧
      completed.get? "@oz/A.sol" = some "contract A {}" ∧ sources.get? "@oz/A.sol" = none ∧
      Confined "@oz" roots "@oz/A.sol" "contract A {}" := by
  intro tree roots sources
  let resolve := (ofNamespace "@oz" roots).resolve
  have resolved : resolve "@oz/A.sol" = .ok "contract A {}" := by
    have computed : (resolve "@oz/A.sol").toOption = some "contract A {}" := by decide +kernel
    cases answer : resolve "@oz/A.sol" with
    | error refusal => rw [answer] at computed; cases computed
    | ok text => rw [answer] at computed; cases computed; rfl
  have token : Import.paths "import \"@oz/A.sol\";" = ["@oz/A.sol"] :=
    Import.paths_eq_singleton (by decide +kernel)
  have served : Import.paths "contract A {}" = [] := Import.paths_eq_nil (by decide +kernel)
  let completed := sources.insert "@oz/A.sol" "contract A {}"
  have there : completed.get? "@oz/A.sol" = some "contract A {}" := by decide
  have first : Closure.step resolve (Closure.start sources) = ⟨completed, ["@oz/A.sol"], []⟩ := by
    have here : sources.get? "Token.sol" = some "import \"@oz/A.sol\";" := by decide
    have found : Import.unit? "Token.sol" "@oz/A.sol" = some "@oz/A.sol" := by decide
    have new : sources.contains "@oz/A.sol" = false := by decide
    rw [Closure.step_eq rfl here, token, List.foldl_cons, List.foldl_nil]
    exact Closure.takeUp_of_served found new rfl resolved
  have second : Closure.step resolve ⟨completed, ["@oz/A.sol"], []⟩ = ⟨completed, [], []⟩ := by
    rw [Closure.step_eq rfl there, served, List.foldl_nil]
  have ended : Closure.run resolve 2 (Closure.start sources) = some ⟨completed, [], []⟩ := by
    rw [Closure.run, if_neg (by decide), first, Closure.run, if_neg (by decide), second]
    rfl
  have complete : Closure.complete resolve 1 sources = .ok completed :=
    (Closure.complete_of_run ended).trans rfl
  exact ⟨completed, complete, there, by decide, confined_of_complete complete there (by decide)⟩

end SolidityVetting.TrustedImports
