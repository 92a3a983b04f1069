import Mathlib.Data.String.Basic
import TpnWorker.Lib.Least
import TpnWorker.Net.Dns

/-! The addresses of a domain. A resolution answers with a set of addresses in a fixed order, and what it stores in the cache
    is read back as the same list. -/

namespace TpnWorker
open Pieces

/-- The domain that a URL or a domain is resolved as. -/
def domainOf (urlOrDomain : String) : String := String.ofList (extractHostname urlOrDomain.toList)

def ipv4sKey (domain : String) : String := "resolved_domain_ipv4s_" ++ domain

/-- The list has the IPv4 addresses of the answer, each once and in ascending order. -/
structure IsPool (addrs : List IpAddr) (pool : List String) : Prop where
  ascending : pool.Pairwise (· < ·)
  mem_iff : ∀ text, text ∈ pool ↔ ∃ ip, .v4 ip ∈ addrs ∧ ip.display = text

/-- The list that a resolution makes of an answer. -/
def poolOf (addrs : List IpAddr) : List String :=
  (((addrs.filter (·.isIpv4)).map fun addr => sanitizeIpv4 addr.display).mergeSort fun a b => decide (a ≤ b)).destutter (· ≠ ·)

section Pool
variable {addrs addrs' : List IpAddr} {pool pool' : List String}

theorem isPool_poolOf (addrs : List IpAddr) : IsPool addrs (poolOf addrs) := by
  refine ⟨List.pairwise_destutter_mergeSort _, fun text => ?_⟩
  rw [poolOf, List.mem_destutter_mergeSort, List.mem_map]
  constructor
  · rintro ⟨addr, haddr, rfl⟩
    obtain ⟨hmem, hv4⟩ := List.mem_filter.mp haddr
    cases addr with
    | v4 ip => exact ⟨ip, hmem, sanitizeIpv4_display.symm⟩
    | v6 ip => cases hv4
  · rintro ⟨ip, hmem, rfl⟩
    exact ⟨.v4 ip, List.mem_filter.mpr ⟨hmem, rfl⟩, sanitizeIpv4_display⟩

/-- Neither the order of an answer nor its repetitions matter. -/
theorem IsPool.unique (h : IsPool addrs pool) (h' : IsPool addrs' pool') (hmem : ∀ ip, .v4 ip ∈ addrs' ↔ .v4 ip ∈ addrs) :
    pool' = pool := by
  refine List.eq_of_pairwise_lt h'.ascending h.ascending fun text => ?_
  rw [h'.mem_iff, h.mem_iff]
  simp only [hmem]

theorem IsPool.ne_nil (h : IsPool addrs pool) (hv4 : ∃ ip, .v4 ip ∈ addrs) : pool ≠ [] := by
  obtain ⟨ip, hmem⟩ := hv4
  exact List.ne_nil_of_mem ((h.mem_iff _).mpr ⟨ip, hmem, rfl⟩)

/-- What is stored is read back. -/
theorem IsPool.cachedIpv4s_join (h : IsPool addrs pool) (hne : pool ≠ []) : cachedIpv4s (",".intercalate pool) = pool := by
  have hip : ∀ text ∈ pool, ∃ ip : Ipv4Addr, ip.display = text := fun text htext => by
    obtain ⟨ip, -, hdisplay⟩ := (h.mem_iff text).mp htext
    exact ⟨ip, hdisplay⟩
  have hcomma : ∀ l ∈ pool.map String.toList, ',' ∉ l := by
    intro l hl hmem
    obtain ⟨text, htext, rfl⟩ := List.mem_map.mp hl
    obtain ⟨ip, rfl⟩ := hip text htext
    exact absurd (Ipv4Addr.mem_display hmem) (by decide)
  have hsplit : (",".intercalate pool).toList.splitOn ',' = pool.map String.toList := by
    rw [String.toList_intercalate]
    exact List.splitOn_intercalate ',' hcomma (by simpa using hne)
  have htrim : (pool.map String.toList).map trim = pool.map String.toList := by
    refine (List.map_congr_left fun l hl => ?_).trans (List.map_id _)
    obtain ⟨text, htext, rfl⟩ := List.mem_map.mp hl
    obtain ⟨ip, rfl⟩ := hip text htext
    exact trim_of_plain fun c hc => not_isWhiteSpace (Ipv4Addr.mem_display hc)
  have hfull : (pool.map String.toList).filter (fun s => decide (s ≠ [])) = pool.map String.toList := by
    refine List.filter_eq_self.mpr fun l hl => ?_
    obtain ⟨text, htext, rfl⟩ := List.mem_map.mp hl
    obtain ⟨ip, rfl⟩ := hip text htext
    obtain ⟨c, cs, hcs, -⟩ := (display_head : ∃ c cs, ip.display.toList = c :: cs ∧ _)
    rw [hcs]
    rfl
  rw [cachedIpv4s, hsplit, htrim, hfull, List.map_map]
  refine (List.map_congr_left fun text htext => ?_).trans (List.map_id _)
  obtain ⟨ip, rfl⟩ := hip text htext
  rw [Function.comp_apply, String.ofList_toList, sanitizeIpv4_display, id]

end Pool

section Resolution
variable {env : DnsEnv} {cache : TtlCache} {urlOrDomain : String} {addrs : List IpAddr} {pool : List String}

/-- A resolution that finds nothing in the cache stores what it answers. -/
theorem resolve_of_miss (hdomain : isValidIpv4 (domainOf urlOrDomain) = false)
    (hmiss : (cache.getString env.getMs (ipv4sKey (domainOf urlOrDomain))).1 = none)
    (hanswer : env.lookupHost (domainOf urlOrDomain ++ ":0") = .ok addrs) (hne : poolOf addrs ≠ []) :
    resolveDomainToIpv4s env cache urlOrDomain =
      (.ok (poolOf addrs), (cache.getString env.getMs (ipv4sKey (domainOf urlOrDomain))).2.setString env.setMs
        (ipv4sKey (domainOf urlOrDomain)) (",".intercalate (poolOf addrs)) (some dnsCacheTtl)) := by
  have hdomain' : isValidIpv4 (String.ofList (extractHostname urlOrDomain.toList)) = false := hdomain
  have hmiss' : (cache.getString env.getMs
      ("resolved_domain_ipv4s_" ++ String.ofList (extractHostname urlOrDomain.toList))).1 = none := hmiss
  have hanswer' : env.lookupHost (String.ofList (extractHostname urlOrDomain.toList) ++ ":0") = .ok addrs := hanswer
  simp only [resolveDomainToIpv4s, hdomain', hmiss', hanswer', Bool.false_eq_true, if_false, Option.map_none,
    Option.getD_none, ne_eq, not_true]
  exact if_neg hne

theorem resolve_of_hit (hdomain : isValidIpv4 (domainOf urlOrDomain) = false) {text : String}
    (hhit : cache.getString env.getMs (ipv4sKey (domainOf urlOrDomain)) = (some text, cache)) (hne : cachedIpv4s text ≠ []) :
    resolveDomainToIpv4s env cache urlOrDomain = (.ok (cachedIpv4s text), cache) := by
  have hdomain' : isValidIpv4 (String.ofList (extractHostname urlOrDomain.toList)) = false := hdomain
  have hhit' : cache.getString env.getMs
      ("resolved_domain_ipv4s_" ++ String.ofList (extractHostname urlOrDomain.toList)) = (some text, cache) := hhit
  simp only [resolveDomainToIpv4s, hdomain', hhit', Bool.false_eq_true, if_false, Option.map_some, Option.getD_some]
  exact if_pos hne

/-- A stored text is found until its time to live is over. -/
theorem TtlCache.getString_of_entry {cache : TtlCache} {key text : String} {now expiresAt : Int}
    (h : cache key = some ⟨.str text, some expiresAt⟩) (hlive : now ≤ expiresAt) :
    cache.getString now key = (some text, cache) := by
  have hget : cache.get now key = (some (.str text), cache) := by
    simp only [TtlCache.get, h]
    rw [if_neg (by simpa using hlive)]
  rw [TtlCache.getString, hget]

end Resolution

/-- A resolution that is not answered from the cache returns the IPv4 addresses of the answer in ascending order, each once;
    so does every other one whose answer has the same addresses, and every later one that is answered from what this one has
    stored. -/
theorem resolution_unchanged {env : DnsEnv} {cache : TtlCache} {urlOrDomain : String} {addrs : List IpAddr}
    (hdomain : isValidIpv4 (domainOf urlOrDomain) = false)
    (hmiss : (cache.getString env.getMs (ipv4sKey (domainOf urlOrDomain))).1 = none)
    (hanswer : env.lookupHost (domainOf urlOrDomain ++ ":0") = .ok addrs) (hv4 : ∃ ip, .v4 ip ∈ addrs) :
    ∃ pool cache', resolveDomainToIpv4s env cache urlOrDomain = (.ok pool, cache') ∧ IsPool addrs pool ∧
      (∀ env₂ cache₂ url₂ addrs₂, domainOf url₂ = domainOf urlOrDomain →
        (cache₂.getString env₂.getMs (ipv4sKey (domainOf url₂))).1 = none →
        env₂.lookupHost (domainOf url₂ ++ ":0") = .ok addrs₂ → (∀ addr, addr ∈ addrs₂ ↔ addr ∈ addrs) →
          (resolveDomainToIpv4s env₂ cache₂ url₂).1 = .ok pool) ∧
      ∀ env₂ cache₂ url₂, domainOf url₂ = domainOf urlOrDomain →
        cache₂ (ipv4sKey (domainOf url₂)) = cache' (ipv4sKey (domainOf urlOrDomain)) →
        env₂.getMs ≤ env.setMs + dnsCacheTtl → resolveDomainToIpv4s env₂ cache₂ url₂ = (.ok pool, cache₂) := by
  have hpool := isPool_poolOf addrs
  have hne := hpool.ne_nil hv4
  refine ⟨_, _, resolve_of_miss hdomain hmiss hanswer hne, hpool, ?_, ?_⟩
  · intro env₂ cache₂ url₂ addrs₂ hsame hmiss₂ hanswer₂ hmem
    have hunique : poolOf addrs₂ = poolOf addrs := hpool.unique (isPool_poolOf addrs₂) fun ip => hmem _
    rw [resolve_of_miss (hsame ▸ hdomain) hmiss₂ hanswer₂ (hunique ▸ hne), hunique]
  · intro env₂ cache₂ url₂ hsame hentry hlive
    have hread := hpool.cachedIpv4s_join hne
    have hstored : cache₂ (ipv4sKey (domainOf url₂)) =
        some ⟨.str (",".intercalate (poolOf addrs)), some (env.setMs + dnsCacheTtl)⟩ :=
      hentry.trans (Function.update_self ..)
    rw [resolve_of_hit (hsame ▸ hdomain) (TtlCache.getString_of_entry hstored hlive) (hread.symm ▸ hne), hread]

/-- An answer with two IPv4 addresses, one of them twice, and an IPv6 address. -/
def mixedAnswer : List IpAddr :=
  [.v4 ⟨203, 0, 113, 9⟩, .v6 ⟨List.replicate 16 0, rfl⟩, .v4 ⟨198, 51, 100, 7⟩, .v4 ⟨203, 0, 113, 9⟩]

def DnsEnv.sample : DnsEnv := ⟨fun _ => .ok mixedAnswer, 0, 40⟩

theorem isPool_mixedAnswer : IsPool mixedAnswer ["198.51.100.7", "203.0.113.9"] := by
  have hfirst : (⟨198, 51, 100, 7⟩ : Ipv4Addr).display = "198.51.100.7" := by decide
  have hsecond : (⟨203, 0, 113, 9⟩ : Ipv4Addr).display = "203.0.113.9" := by decide
  refine ⟨by decide, fun text => ?_⟩
  rw [← hfirst, ← hsecond]
  constructor
  · intro htext
    rcases List.mem_cons.mp htext with rfl | htext
    · exact ⟨_, by simp [mixedAnswer], rfl⟩
    · exact ⟨_, List.mem_cons_self, (List.mem_singleton.mp htext).symm⟩
  · rintro ⟨ip, hmem, rfl⟩
    simp only [mixedAnswer, List.mem_cons, IpAddr.v4.injEq, reduceCtorEq, List.not_mem_nil, or_false, false_or] at hmem
    rcases hmem with rfl | rfl | rfl <;> simp

/-- The addresses of a URL, and of its domain 15 minutes later. -/
theorem resolution_unchanged_sample :
    ∃ cache', resolveDomainToIpv4s .sample .new "https://pool.example:3000/path" =
        (.ok ["198.51.100.7", "203.0.113.9"], cache') ∧
      resolveDomainToIpv4s { DnsEnv.sample with getMs := 900040 } cache' "pool.example" =
        (.ok ["198.51.100.7", "203.0.113.9"], cache') := by
  have hdomain : isValidIpv4 (domainOf "https://pool.example:3000/path") = false := by decide +kernel
  have hanswer : DnsEnv.sample.lookupHost (domainOf "https://pool.example:3000/path" ++ ":0") = .ok mixedAnswer := rfl
  obtain ⟨pool, cache', hresolve, hpool, -, hlater⟩ :=
    resolution_unchanged hdomain (rfl : (TtlCache.new.getString _ _).1 = none) hanswer ⟨⟨203, 0, 113, 9⟩, List.mem_cons_self⟩
  obtain rfl := isPool_mixedAnswer.unique hpool fun _ => Iff.rfl
  have hsame : domainOf "pool.example" = domainOf "https://pool.example:3000/path" := by decide +kernel
  exact ⟨cache', hresolve, hlater _ _ _ hsame (congrArg (fun domain => cache' (ipv4sKey domain)) hsame) (by decide)⟩

end TpnWorker
