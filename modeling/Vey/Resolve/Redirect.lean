import Vey.Net.Host
import Vey.Resolve.HappyEyeballs

/-! Rules for a domain and everything below it.

        www.example.net    -->  net.example.www.     looked up
            example.net    -->  net.example.         the key of a rule

    A rule is stored under its labels in reverse, each with a dot behind it, so that the names a rule
    covers are those that its key starts. `ResolveRedirection` has exact rules besides, and two queries
    that differ in what they do when an exact rule has no address to give. -/

namespace Vey.Types.DomainName
open Schemes List

def labels (d : DomainName) : List Bytes := d.asBytes.splitOn 46

def toReversed (d : DomainName) : Bytes := [46].intercalate d.labels.reverse ++ [46]

def stripSuffix (d suffix : DomainName) : Option Bytes :=
  (Schemes.stripSuffix suffix.asBytes d.asBytes).bind (Schemes.stripSuffix [46])

def replaceSuffix (d origin target : DomainName) :
    Except DomainNameParseError (Option DomainName) :=
  match d.stripSuffix origin with
  | none => .ok none
  | some s =>
    if maxFqdnLen < s.length + 1 + target.asBytes.length + 1 then .error .tooLong
    else .ok (some ⟨s ++ [46] ++ target.asBytes ++ [46]⟩)

/-- `d` is the domain `s` or lies below it. -/
def Covers (s d : DomainName) : Prop := d.asBytes = s.asBytes ∨ 46 :: s.asBytes <:+ d.asBytes

variable {s s' d : DomainName}

theorem toReversed_eq (d : DomainName) : d.toReversed = d.labels.reverse.flatMap (· ++ [46]) := by
  have hjoin : ∀ ls : List Bytes, ls ≠ [] → [46].intercalate ls ++ [46] = ls.flatMap (· ++ [46]) := by
    intro ls
    induction ls with
    | nil => simp
    | cons l ls ih =>
      intro _
      cases ls with
      | nil => simp
      | cons l' ls =>
        have := ih (by simp)
        simp_all [intercalate]
  exact hjoin _ (by simp [labels])

/-- No label has a dot in it. -/
theorem dot_notMem_label {l : Bytes} (h : l ∈ d.labels) : 46 ∉ l := by
  have hsplit : ∀ (b : Bytes), ∀ l ∈ b.splitOn 46, 46 ∉ l := by
    intro b
    induction b with
    | nil => simp
    | cons x b ih =>
      rw [splitOn_cons_eq_if_modifyHead]
      obtain ⟨w, ws, hw⟩ := exists_cons_of_ne_nil (splitOn_ne_nil 46 b)
      rw [hw] at ih ⊢
      split <;> simp_all
      grind
  exact hsplit _ l h

/-- Labels with dots behind them that start a text are its first labels. -/
theorem prefix_of_flatMap_dots {as bs : List Bytes} (ha : ∀ l ∈ as, 46 ∉ l) (hb : ∀ l ∈ bs, 46 ∉ l)
    (h : as.flatMap (· ++ [46]) <+: bs.flatMap (· ++ [46])) : as <+: bs := by
  induction as generalizing bs with
  | nil => exact nil_prefix
  | cons a as ih =>
    obtain ⟨t, ht⟩ := h
    cases bs with
    | nil => simp at ht
    | cons b bs =>
      have hcons : a ++ 46 :: (as.flatMap (· ++ [46]) ++ t) = b ++ 46 :: bs.flatMap (· ++ [46]) := by
        simpa using ht
      have hlen := congrArg (memchr 46) hcons
      rw [memchr_append_cons _ (ha a mem_cons_self),
        memchr_append_cons _ (hb b mem_cons_self)] at hlen
      obtain ⟨rfl, hrest⟩ := append_inj hcons (Option.some.inj hlen)
      exact cons_prefix_cons.mpr ⟨rfl, ih (fun l h => ha l (mem_cons_of_mem _ h))
        (fun l h => hb l (mem_cons_of_mem _ h)) ⟨t, tail_eq_of_cons_eq hrest⟩⟩

theorem toReversed_starts : s.toReversed <+: d.toReversed ↔ s.labels <:+ d.labels := by
  rw [toReversed_eq, toReversed_eq, ← reverse_prefix]
  constructor
  · exact prefix_of_flatMap_dots (fun l h => dot_notMem_label (mem_reverse.mp h))
      fun l h => dot_notMem_label (mem_reverse.mp h)
  · rintro ⟨t, ht⟩
    rw [← ht, flatMap_append]
    exact prefix_append _ _

theorem labels_suffix : s.labels <:+ d.labels ↔ s.Covers d := by
  constructor
  · rintro ⟨ls, hls⟩
    have hd : [46].intercalate (ls ++ s.labels) = d.asBytes := by
      rw [hls]
      exact intercalate_splitOn _
    have hs : [46].intercalate s.labels = s.asBytes := intercalate_splitOn _
    have hne : s.labels ≠ [] := by simp [labels]
    cases ls with
    | nil => exact .inl (hd.symm.trans hs)
    | cons l ls =>
      right
      rw [← hd, ← hs]
      clear hd hs hls
      induction ls generalizing l with
      | nil =>
        obtain ⟨m, ms, hm⟩ := exists_cons_of_ne_nil hne
        exact ⟨l, by simp [hm, intercalate]⟩
      | cons l' ls ih =>
        obtain ⟨t, ht⟩ := ih l'
        exact ⟨l ++ 46 :: t, by simp [ht, intercalate] at ht ⊢⟩
  · rintro (h | ⟨p, hp⟩)
    · have hl : s.labels = d.labels := congrArg (splitOn 46) h.symm
      exact hl ▸ suffix_rfl
    · rw [labels, labels, ← hp, splitOn_append_cons_self]
      exact suffix_append _ _

/-- The key of a rule starts the text that is looked up just when the rule covers the name. -/
theorem toReversed_prefix_iff : s.toReversed <+: d.toReversed ↔ s.Covers d :=
  toReversed_starts.trans labels_suffix

/-- Of two rules for a name the one with the longer key has more labels. -/
theorem Covers.length_le_iff (h : s.Covers d) (h' : s'.Covers d) :
    s.toReversed.length ≤ s'.toReversed.length ↔ s.labels.length ≤ s'.labels.length := by
  constructor
  · intro hle
    exact (toReversed_starts.mp (prefix_of_prefix_length_le (toReversed_prefix_iff.mpr h)
      (toReversed_prefix_iff.mpr h') hle)).length_le
  · intro hle
    exact (toReversed_starts.mpr (suffix_of_suffix_length_le (labels_suffix.mpr h)
      (labels_suffix.mpr h') hle)).length_le

/-- A rule that covers a name fails to replace its end only for the name of the rule itself, or if the
    result is too long. -/
theorem Covers.replaceSuffix (target : DomainName) (h : s.Covers d) :
    d.replaceSuffix s target = .ok none ∧ d.asBytes = s.asBytes ∨
    ∃ x, d.asBytes = x ++ 46 :: s.asBytes ∧ d.replaceSuffix s target =
      if maxFqdnLen < x.length + 1 + target.asBytes.length + 1 then .error .tooLong
      else .ok (some ⟨x ++ [46] ++ target.asBytes ++ [46]⟩) := by
  rcases h with h | ⟨x, hx⟩
  · left
    refine ⟨?_, h⟩
    simp [DomainName.replaceSuffix, stripSuffix, h, Schemes.stripSuffix]
  · right
    refine ⟨x, hx.symm, ?_⟩
    have hs : d.stripSuffix s = some x := by
      have := Schemes.stripSuffix_append (x ++ [46]) s.asBytes
      rw [append_assoc, singleton_append, hx] at this
      rw [stripSuffix, this]
      exact Schemes.stripSuffix_append x [46]
    simp only [DomainName.replaceSuffix, hs]

end Vey.Types.DomainName

namespace Vey.Resolve
open Schemes Vey.Types Net List

/-! ### The rules in a trie -/

/-- The value of the longest start of the key that is stored, up to a length. -/
def ancestorWithin {α : Type} (t : Table Bytes α) (key : Bytes) : Nat → Option α
  | 0 => t.lookup []
  | n + 1 => (t.lookup (key.take (n + 1))).or (ancestorWithin t key n)

theorem ancestorWithin_cases {α : Type} (t : Table Bytes α) (key : Bytes) (n : Nat) :
    (ancestorWithin t key n = none ∧ ∀ m ≤ n, t.lookup (key.take m) = none) ∨
    ∃ m ≤ n, ancestorWithin t key n = t.lookup (key.take m) ∧ t.lookup (key.take m) ≠ none ∧
      ∀ m' ≤ n, t.lookup (key.take m') ≠ none → m' ≤ m := by
  induction n with
  | zero =>
    cases h : t.lookup (key.take 0) with
    | none => exact .inl ⟨h, fun m hm => by rw [Nat.le_zero.mp hm, h]⟩
    | some v => exact .inr ⟨0, Nat.le_refl _, rfl, by rw [h]; nofun, fun m hm _ => hm⟩
  | succ n ih =>
    rw [ancestorWithin]
    cases h : t.lookup (key.take (n + 1)) with
    | some v =>
      exact .inr ⟨n + 1, Nat.le_refl _, by rw [h, Option.some_or], by simp [h], fun m hm _ => hm⟩
    | none =>
      rw [Option.none_or]
      have hlast : ∀ m ≤ n + 1, t.lookup (key.take m) ≠ none → m ≤ n := by
        intro m hm hne
        by_contra hlt
        exact hne (by rw [show m = n + 1 by omega, h])
      rcases ih with ⟨hnone, hall⟩ | ⟨m, hm, heq, hne, hmax⟩
      · refine .inl ⟨hnone, fun m hm => ?_⟩
        by_contra hne
        exact hne (hall m (hlast m hm hne))
      · exact .inr ⟨m, by omega, heq, hne, fun m' hm' hne' => hmax m' (hlast m' hm' hne') hne'⟩

/-- `radix_trie`, over the keys that are stored with their values. -/
class RadixTrie where
  getAncestorValue {α : Type} : Table Bytes α → Bytes → Option α
  /-- the value is that of the longest stored key that starts the one looked up -/
  ancestor : ∀ {α : Type} (t : Table Bytes α) (key : Bytes),
    (getAncestorValue t key = none ∧ ∀ m ≤ key.length, t.lookup (key.take m) = none) ∨
    ∃ m ≤ key.length, getAncestorValue t key = t.lookup (key.take m) ∧
      t.lookup (key.take m) ≠ none ∧
      ∀ m' ≤ key.length, t.lookup (key.take m') ≠ none → m' ≤ m

instance (priority := low) : RadixTrie where
  getAncestorValue t key := ancestorWithin t key key.length
  ancestor t key := ancestorWithin_cases t key key.length

export RadixTrie (getAncestorValue)

section

variable {α : Type} (rules : List (DomainName × α))

/-- The trie with these rules, inserted one after the other. -/
def suffixTrie : Table Bytes α :=
  rules.foldl (fun t r => t.insert r.1.toReversed r.2) ∅

/-- The value of a rule that covers the name and has the most labels of those that do. -/
def Selects (d : DomainName) : Option α → Prop
  | some v => ∃ s, (s, v) ∈ rules ∧ s.Covers d ∧
      ∀ r ∈ rules, r.1.Covers d → r.1.labels.length ≤ s.labels.length
  | none => ∀ r ∈ rules, ¬r.1.Covers d

theorem suffixTrie_lookup (k : Bytes) :
    (∀ v, (suffixTrie rules).lookup k = some v → ∃ s, (s, v) ∈ rules ∧ s.toReversed = k) ∧
    ((suffixTrie rules).lookup k = none → ∀ r ∈ rules, r.1.toReversed ≠ k) := by
  induction rules using reverseRecOn with
  | nil => simp [suffixTrie]
  | append_singleton rules r ih =>
    rw [suffixTrie, foldl_concat, Table.lookup_insert, ← suffixTrie]
    split <;> grind

/-- The trie selects the rule with the most labels. -/
theorem getAncestorValue_selects [RadixTrie] (d : DomainName) :
    Selects rules d (getAncestorValue (suffixTrie rules) d.toReversed) := by
  have hkey : ∀ r ∈ rules, r.1.Covers d → r.1.toReversed.length ≤ d.toReversed.length ∧
      (suffixTrie rules).lookup (d.toReversed.take r.1.toReversed.length) ≠ none := by
    intro r hr hc
    have hpre := DomainName.toReversed_prefix_iff.mpr hc
    rw [← prefix_iff_eq_take.mp hpre]
    exact ⟨hpre.length_le, fun hnone => (suffixTrie_lookup rules _).2 hnone r hr rfl⟩
  rcases RadixTrie.ancestor (suffixTrie rules) d.toReversed with
    ⟨hnone, hall⟩ | ⟨m, hm, heq, hne, hmax⟩
  · rw [hnone]
    intro r hr hc
    exact (hkey r hr hc).2 (hall _ (hkey r hr hc).1)
  · obtain ⟨v, hv⟩ := Option.ne_none_iff_exists'.mp hne
    obtain ⟨s, hs, hk⟩ := (suffixTrie_lookup rules _).1 v hv
    have hc : s.Covers d := DomainName.toReversed_prefix_iff.mp (hk ▸ take_prefix _ _)
    rw [heq, hv]
    refine ⟨s, hs, hc, fun r hr hr' => (hr'.length_le_iff hc).mp ?_⟩
    have hlen := congrArg length hk
    rw [length_take, Nat.min_eq_left hm] at hlen
    rw [hlen]
    exact hmax _ (hkey r hr hr').1 (hkey r hr hr').2

end

/-! ### Who uses the trie -/

section

variable [RadixTrie]

/-- `AclSuffixDomainRule` over `AclRadixTrieRule`; a builder holds the same table. -/
structure AclSuffixDomainRule (α : Type) where
  inner : Table Bytes α := ∅
  missedAction : α

namespace AclSuffixDomainRule

variable {α : Type}

def addNode (b : AclSuffixDomainRule α) (d : DomainName) (action : α) : AclSuffixDomainRule α :=
  { b with inner := b.inner.insert d.toReversed action }

def check (r : AclSuffixDomainRule α) (d : DomainName) : Bool × α :=
  match getAncestorValue r.inner d.toReversed with
  | some action => (true, action)
  | none => (false, r.missedAction)

end AclSuffixDomainRule

/-- `HostMatch`; a map that does not exist yet is empty. -/
structure HostMatch (α : Type) where
  exactDomain : Table DomainName α := ∅
  exactIp : Table IpAddr α := ∅
  suffixDomain : Table Bytes α := ∅

namespace HostMatch

variable {α : Type}

def addSuffixDomain (m : HostMatch α) (d : DomainName) (v : α) : HostMatch α :=
  { m with suffixDomain := m.suffixDomain.insert d.toReversed v }

def getMatched (m : HostMatch α) : Host → Option α
  | .ip ip => m.exactIp.lookup ip
  | .domain d => (m.exactDomain.lookup d).or (getAncestorValue m.suffixDomain d.toReversed)

end HostMatch

structure TrieValue where
  origin : DomainName
  target : ResolveRedirectionValue

structure ResolveRedirectionBuilder where
  ht : Table DomainName ResolveRedirectionValue
  trie : Table DomainName ResolveRedirectionValue

structure ResolveRedirection where
  ht : Table DomainName ResolveRedirectionValue
  trie : Table Bytes TrieValue

/-- The suffix rules, each with its own domain. -/
def ResolveRedirectionBuilder.rules (b : ResolveRedirectionBuilder) : List (DomainName × TrieValue) :=
  b.trie.entries.map fun e => (e.1, ⟨e.1, e.2⟩)

def ResolveRedirectionBuilder.build (b : ResolveRedirectionBuilder) : ResolveRedirection :=
  ⟨b.ht, suffixTrie b.rules⟩

def QueryStrategy.pickFirst (s : QueryStrategy) (ip4 ip6 : List IpAddr) : Option IpAddr :=
  match s with
  | .ipv4Only => ip4.head?
  | .ipv6Only => ip6.head?
  | .ipv4First => ip4.head?.or ip6.head?
  | .ipv6First => ip6.head?.or ip4.head?

namespace ResolveRedirection

variable (r : ResolveRedirection) (d : DomainName) (strategy : QueryStrategy)

def queryValue : Except DomainNameParseError (Option ResolveRedirectionValue) :=
  match r.ht.lookup d with
  | some v => .ok (some v)
  | none =>
    match getAncestorValue r.trie d.toReversed with
    | none => .ok none
    | some ⟨origin, .domain target⟩ => (d.replaceSuffix origin target).map (·.map .domain)
    | some ⟨_, .ip ip4 ip6⟩ => .ok (some (.ip ip4 ip6))

/-- The second half of `query_first`, reached without an answer from the exact rules. -/
def suffixFirst : Except DomainNameParseError (Option Host) :=
  match getAncestorValue r.trie d.toReversed with
  | none => .ok none
  | some ⟨origin, .domain target⟩ => (d.replaceSuffix origin target).map (·.map .domain)
  | some ⟨_, .ip ip4 ip6⟩ => .ok ((strategy.pickFirst ip4 ip6).map .ip)

def queryFirst : Except DomainNameParseError (Option Host) :=
  match r.ht.lookup d with
  | some (.domain name) => .ok (some (.domain name))
  | some (.ip ip4 ip6) =>
    match strategy.pickFirst ip4 ip6 with
    | some ip => .ok (some (.ip ip))
    | none => r.suffixFirst d strategy
  | none => r.suffixFirst d strategy

end ResolveRedirection

/-! ### The rule with the most labels -/

/-- What `query_value` answers by the suffix rule it found: the end of the name is replaced, unless
    the name is the domain of the rule or the result is too long. -/
def Answers (d : DomainName) (answer : Except DomainNameParseError (Option ResolveRedirectionValue)) :
    Option TrieValue → Prop
  | none => answer = .ok none
  | some ⟨_, .ip ip4 ip6⟩ => answer = .ok (some (.ip ip4 ip6))
  | some ⟨origin, .domain target⟩ =>
    d.asBytes = origin.asBytes ∧ answer = .ok none ∨
    ∃ x, d.asBytes = x ++ 46 :: origin.asBytes ∧ answer =
      if DomainName.maxFqdnLen < x.length + 1 + target.asBytes.length + 1 then .error .tooLong
      else .ok (some (.domain ⟨x ++ [46] ++ target.asBytes ++ [46]⟩))

/-- The rules of the three users are selected as `Selects` has it. -/
theorem suffix_rule_most_specific {α : Type} (rules : List (DomainName × α)) (d : DomainName) :
    (∀ s : DomainName, s.toReversed <+: d.toReversed ↔ s.Covers d) ∧
    (∀ s s' : DomainName, s.Covers d → s'.Covers d →
      (s.toReversed.length ≤ s'.toReversed.length ↔ s.labels.length ≤ s'.labels.length)) ∧
    (∀ missed : α, ∃ found, Selects rules d found ∧
      (rules.foldl (fun b r => b.addNode r.1 r.2) (⟨∅, missed⟩ : AclSuffixDomainRule α)).check d =
        (found.isSome, found.getD missed)) ∧
    (∀ m : HostMatch α, m.suffixDomain = ∅ → m.exactDomain.lookup d = none →
      Selects rules d
        ((rules.foldl (fun m r => m.addSuffixDomain r.1 r.2) m).getMatched (.domain d))) ∧
    ∀ b : ResolveRedirectionBuilder, b.ht.lookup d = none →
      ∃ found, Selects b.rules d found ∧ Answers d (b.build.queryValue d) found := by
  have hsel := getAncestorValue_selects rules d
  refine ⟨fun _ => DomainName.toReversed_prefix_iff, fun _ _ => DomainName.Covers.length_le_iff,
    fun missed => ?_, fun m hm hd => ?_, fun b hd => ?_⟩
  · refine ⟨_, hsel, ?_⟩
    rw [foldl_hom (AclSuffixDomainRule.mk · missed) fun _ _ => rfl, AclSuffixDomainRule.check,
      ← suffixTrie]
    cases getAncestorValue (suffixTrie rules) d.toReversed <;> rfl
  · rw [show m = { m with suffixDomain := ∅ } by rw [← hm],
      foldl_hom (HostMatch.mk m.exactDomain m.exactIp) fun _ _ => rfl, HostMatch.getMatched, hd,
      Option.none_or, ← suffixTrie]
    exact hsel
  · have hfound := getAncestorValue_selects b.rules d
    have hquery : b.build.queryValue d =
        match getAncestorValue (suffixTrie b.rules) d.toReversed with
        | none => .ok none
        | some ⟨origin, .domain target⟩ => (d.replaceSuffix origin target).map (·.map .domain)
        | some ⟨_, .ip ip4 ip6⟩ => .ok (some (.ip ip4 ip6)) := by
      rw [ResolveRedirection.queryValue, ResolveRedirectionBuilder.build, hd]
    generalize getAncestorValue (suffixTrie b.rules) d.toReversed = found at hfound hquery
    refine ⟨found, hfound, ?_⟩
    rw [hquery]
    rcases found with _ | ⟨origin, target | ⟨ip4, ip6⟩⟩
    · rfl
    · obtain ⟨s, hs, hc, -⟩ := hfound
      obtain ⟨⟨k, v⟩, -, he⟩ := mem_map.mp hs
      cases he
      dsimp only at hc ⊢
      rcases hc.replaceSuffix target with ⟨h, heq⟩ | ⟨x, hx, h⟩
      · exact .inl ⟨heq, by rw [h]; rfl⟩
      · exact .inr ⟨x, hx, by rw [h]; split <;> rfl⟩
    · rfl

/-! ### The two queries -/

namespace ResolveRedirection

variable {r : ResolveRedirection} {d : DomainName} {strategy : QueryStrategy}

/-- The host that `query_first` should give for the answer of `query_value`. -/
def firstHost (strategy : QueryStrategy) : ResolveRedirectionValue → Option Host
  | .domain name => some (.domain name)
  | .ip ip4 ip6 => (strategy.pickFirst ip4 ip6).map .ip

/-- The suffix rule for the name, if there is one, has no host to give. -/
def NoSuffixHost (r : ResolveRedirection) (d : DomainName) (strategy : QueryStrategy) : Prop :=
  ∀ origin target, getAncestorValue r.trie d.toReversed = some ⟨origin, target⟩ →
    match target with
    | .domain name => ∀ d', d.replaceSuffix origin name ≠ .ok (some d')
    | .ip ip4 ip6 => strategy.pickFirst ip4 ip6 = none

theorem suffixFirst_iff {host : Host} (hnone : r.ht.lookup d = none) :
    r.suffixFirst d strategy = .ok (some host) ↔
      ∃ v, r.queryValue d = .ok (some v) ∧ firstHost strategy v = some host := by
  rw [suffixFirst, queryValue, hnone]
  split
  · simp
  · cases d.replaceSuffix _ _ with
    | error => simp [Except.map]
    | ok replaced => cases replaced <;> simp [Except.map, firstHost]
  · simp [firstHost]

theorem suffixFirst_silent_iff :
    (∀ h, r.suffixFirst d strategy ≠ .ok (some h)) ↔ r.NoSuffixHost d strategy := by
  rw [suffixFirst, NoSuffixHost]
  cases getAncestorValue r.trie d.toReversed with
  | none => simp
  | some node =>
    obtain ⟨origin, target⟩ := node
    cases target with
    | domain name =>
      cases h : d.replaceSuffix origin name with
      | error => simp [Except.map, h]
      | ok replaced => cases replaced <;> simp [Except.map, h]
    | ip ip4 ip6 => simp [Option.eq_none_iff_forall_ne_some]

/-- The queries agree on a name unless its exact rule has no address for the strategy and a suffix
    rule has a host: that host is what `query_first` then gives. -/
theorem queryFirst_agrees_iff :
    (∀ h, r.queryFirst d strategy = .ok (some h) ↔
      ∃ v, r.queryValue d = .ok (some v) ∧ firstHost strategy v = some h) ↔
    ∀ ip4 ip6, r.ht.lookup d = some (.ip ip4 ip6) → strategy.pickFirst ip4 ip6 = none →
      r.NoSuffixHost d strategy := by
  cases hl : r.ht.lookup d with
  | none => simp [queryFirst, hl, suffixFirst_iff hl]
  | some v =>
    have hv : r.queryValue d = .ok (some v) := by rw [queryValue, hl]
    cases v with
    | domain name => simp [queryFirst, hl, hv, firstHost]
    | ip ip4 ip6 =>
      cases hp : strategy.pickFirst ip4 ip6 with
      | some ip => simp [queryFirst, hl, hv, firstHost, hp]
      | none => simp [queryFirst, hl, hv, firstHost, hp, ← suffixFirst_silent_iff]

end ResolveRedirection

end

namespace ResolveRedirection

/-- An exact rule with an IPv4 address only, below a suffix rule with an IPv6 address. -/
def twoFamilies : ResolveRedirectionBuilder where
  ht := (∅ : Table DomainName _).insert ⟨ascii "a.b."⟩ (.ip [.v4 1] [])
  trie := (∅ : Table DomainName _).insert ⟨ascii "b."⟩ (.ip [] [.v6 2])

theorem queryFirst_other_rule :
    let r := twoFamilies.build
    let d : DomainName := ⟨ascii "a.b."⟩
    r.queryFirst d .ipv6Only = .ok (some (.ip (.v6 2))) ∧
    ¬∃ v, r.queryValue d = .ok (some v) ∧ firstHost .ipv6Only v = some (.ip (.v6 2)) := by
  refine ⟨rfl, ?_⟩
  rintro ⟨v, hv, hfirst⟩
  cases hv.symm.trans (show _ = .ok (some (.ip [.v4 1] [])) from rfl)
  cases hfirst

end ResolveRedirection

end Vey.Resolve
