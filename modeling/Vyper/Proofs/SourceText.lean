import Vyper.Proofs.Placement.Source

/-!
# The text at a span

Tokens stand one behind the other with gaps between them, and the text at the span of each is the
token. A leaf of a tree has the span of its token, so its source text is its own name or value
(`TokenStream.ofText_faithful`).
-/

namespace Vyper

namespace Node

variable {n : Node} {t : Token}

theorem exists_token (h : n.kind ∈ [.name, .int, .hex, .decimal, .truth]) :
    ∃ t, n.token? = some t := by
  cases n with
  | expr e =>
    cases e with
    | name | numeral | truth => exact ⟨_, rfl⟩
    | _ => simp [kind, Expr.kind] at h
  | stmt s => cases s <;> simp [kind, Stmt.kind] at h
  | members d =>
    obtain ⟨form, span, name, body⟩ := d
    cases form <;> simp [kind, MemberKind.toKind] at h
  | clause c =>
    obtain ⟨form, span, subject⟩ := c
    cases form <;> simp [kind, ClauseKind.toKind] at h
  | _ => simp [kind] at h

/-- A leaf has the span of its token, and the token's text in its own field. -/
theorem text_of_token (h : n.token? = some t) : t.span = n.span ∧
    ∃ s, n.text? (if n.kind = .name then "id" else "value") = some s ∧
      ∀ text, t.kind.Spells text → text = s.toList := by
  unfold token? at h
  split at h
  · next span id =>
    cases h
    exact ⟨rfl, id, rfl, fun text hspells => hspells.2⟩
  · next span form value =>
    cases h
    refine ⟨rfl, value, ?_, fun text hspells => hspells.2⟩
    cases form <;> rfl
  · next span value =>
    cases h
    exact ⟨rfl, _, rfl, fun text hspells => hspells.2⟩
  · cases h

end Node

/-- In a tree of a text, the source text of a leaf is its name or its value. -/
theorem Module.IsTreeOf.text_leaf {m : Module} {text : List Char} (h : m.IsTreeOf text) {s : Site}
    (hs : s ∈ (Tree.ofModule m text).sites)
    (hkind : s.kind ∈ [.name, .int, .hex, .decimal, .truth]) :
    s.node.text? (if s.kind = .name then "id" else "value") =
      some (String.ofList ((Tree.ofModule m text).sourceOf s.node)) := by
  rw [Tree.sites_eq] at hs
  obtain ⟨path, hpath⟩ := Site.exists_path hs
  obtain ⟨t, ht⟩ := Node.exists_token hkind
  have hspelled : Token.Spelled text t := (h.wellPlaced path s.node hpath).token t ht
  obtain ⟨hspan, value, hvalue, hspells⟩ := Node.text_of_token ht
  have hsource : (Tree.ofModule m text).sourceOf s.node = value.toList := by
    rw [Tree.sourceOf, ← hspan]
    exact hspells _ hspelled
  rw [hsource, String.ofList_toList]
  exact hvalue

namespace TokenStream

/-- The tokens of a text stand one behind the other with gaps between them, and the text at the span
of each is the token. In every tree of the text the source text of a leaf is its name or its value.
-/
theorem ofText_faithful {text : List Char} {stream : TokenStream} (h : ofText text = .ok stream) :
    Token.Laid [] stream.content text ∧
    stream.content.Pairwise (fun a b => a.span.stop ≤ b.span.start) ∧
    (∀ t ∈ stream.content, t.span.start < t.span.stop ∧ t.kind.Spells (Rows.slice text t.span)) ∧
    stream.content.IsChain (fun a b => Gap (Rows.slice text ⟨a.span.stop, b.span.start⟩)) ∧
    ∀ m : Module, m.IsTreeOf text → ∀ s ∈ (Tree.ofModule m text).sites,
      s.kind ∈ [.name, .int, .hex, .decimal, .truth] →
      s.node.text? (if s.kind = .name then "id" else "value") =
        some (String.ofList ((Tree.ofModule m text).sourceOf s.node)) := by
  have hlaid := laid_ofText h
  have hrow := row_tokens h
  refine ⟨hlaid, hrow.apart.1.filter _, fun t ht => ?_, hlaid.isChain_gap,
    fun m hm s => hm.text_leaf⟩
  have hlt := hrow.start_lt_stop t (List.mem_of_mem_filter ht) (hlaid.isMark_eq_false t ht)
  exact ⟨hlt, hlaid.spells_slice t ht⟩

/-- Two declarations with a letter of two bytes, a comment up to a carriage return, and a
continuation. -/
def broken : List Char := "a: b = \"é\" # é\r\nc: d = \\\r\n 0x1F\n".toList

theorem ofText_faithful_broken :
    ∃ stream parsed, ofText broken = .ok stream ∧ Module.parse broken = .ok parsed ∧
      stream.content.length = 10 ∧
      stream.content.IsChain (fun a b => Gap (Rows.slice broken ⟨a.span.stop, b.span.start⟩)) ∧
      ∃ s ∈ (Tree.ofModule parsed.tree broken).sites, s.kind = .hex ∧
        (Tree.ofModule parsed.tree broken).sourceOf s.node = "0x1F".toList := by
  have hlength : (ofText broken).toOption.map (·.content.length) = some 10 := by decide +kernel
  have hleaf : ((Module.parse broken).toOption.map fun parsed =>
      ((Node.module parsed.tree).at? [1, 2]).map fun n => (n.kind, n.text? "value")) =
        some (some (.hex, some "0x1F")) := by
    decide +kernel
  cases hstream : ofText broken with
  | error e =>
    rw [hstream] at hlength
    cases hlength
  | ok stream =>
  cases hparse : Module.parse broken with
  | error e =>
    rw [hparse] at hleaf
    cases hleaf
  | ok parsed =>
    rw [hstream] at hlength
    rw [hparse] at hleaf
    obtain ⟨n, hn, hfields⟩ := Option.map_eq_some_iff.mp (Option.some.inj hleaf)
    have hpath : (Tree.ofModule parsed.tree broken).root.node.at? [1, 2] = some n := hn
    obtain ⟨s, hs, rfl⟩ := Site.exists_mem_descendants hpath (List.cons_ne_nil _ _)
    rw [← Tree.sites_eq] at hs
    obtain ⟨hkind, hvalue⟩ : s.kind = .hex ∧ s.node.text? "value" = some "0x1F" :=
      Prod.mk.inj hfields
    obtain ⟨-, -, -, hgaps, hleaves⟩ := ofText_faithful hstream
    have hsource := hleaves parsed.tree ⟨parsed, hparse, .inl rfl⟩ s hs
    rw [hkind, if_neg (by decide), hvalue] at hsource
    have htext := congrArg String.toList (Option.some.inj (hsource (by decide)))
    exact ⟨stream, parsed, rfl, rfl, Option.some.inj hlength, hgaps, s, hs, hkind,
      (htext.trans String.toList_ofList).symm⟩

end TokenStream

end Vyper
