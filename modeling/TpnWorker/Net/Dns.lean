import Mathlib.Data.List.Destutter
import TpnWorker.Error
import TpnWorker.Lib.Ipv6
import TpnWorker.Lib.Pieces
import TpnWorker.Net.Ip
import TpnWorker.Service.Cache

/-! Resolution of the host of a URL or a domain (`src/net/dns.rs`). -/

namespace TpnWorker
open Pieces

inductive IpAddr where
  | v4 (ip : Ipv4Addr)
  | v6 (ip : Ipv6Addr)

def IpAddr.isIpv4 : IpAddr → Bool
  | v4 _ => true
  | v6 _ => false

def IpAddr.display : IpAddr → String
  | v4 ip => ip.display
  | v6 ip => ip.display

/-- Whether a text is an IPv4 address. -/
def isValidIpv4 (ip : String) : Bool := (Ipv4Addr.parse ip).isSome

/-- 15 minutes, in milliseconds. -/
def dnsCacheTtl : Int := 15 * 60 * 1000

def schemeEnd : List Char := [':', '/', '/']

/-- Extract the hostname from a URL string. -/
def extractHostname (input : List Char) : List Char :=
  match if containsText schemeEnd input then (splitAtText schemeEnd input)[1]? else none with
  | some afterScheme => firstPiece ':' (firstPiece '/' afterScheme)
  | none => firstPiece ':' input

/-- What one resolution meets: the answer of the name server, and the instants of the two accesses to the cache. -/
structure DnsEnv where
  lookupHost : String → Except String (List IpAddr)
  getMs : Int
  setMs : Int

/-- The addresses in a cached text. -/
def cachedIpv4s (cached : String) : List String :=
  (((cached.toList.splitOn ',').map trim).filter fun s => decide (s ≠ [])).map fun s => sanitizeIpv4 (String.ofList s)

/-- Resolve a domain to all IPv4 addresses with caching: a list without duplicates in stable order. -/
def resolveDomainToIpv4s (env : DnsEnv) (cache : TtlCache) (urlOrDomain : String) :
    Except AppError (List String) × TtlCache :=
  let domain := String.ofList (extractHostname urlOrDomain.toList)
  if isValidIpv4 domain then (.ok [sanitizeIpv4 domain], cache)
  else
    let cacheKey := "resolved_domain_ipv4s_" ++ domain
    let (cached, cache) := cache.getString env.getMs cacheKey
    let values := (cached.map cachedIpv4s).getD []
    if values ≠ [] then (.ok values, cache)
    else
      match env.lookupHost (domain ++ ":0") with
      | .error e => (.error (.internal s!"DNS resolution failed for {domain}: {e}"), cache)
      | .ok addrs =>
        let resolved := (addrs.filter (·.isIpv4)).map fun addr => sanitizeIpv4 addr.display
        let resolved := (resolved.mergeSort fun a b => decide (a ≤ b)).destutter (· ≠ ·)
        if resolved = [] then (.error (.internal s!"No IPv4 address found for {domain}"), cache)
        else (.ok resolved, cache.setString env.setMs cacheKey (",".intercalate resolved) (some dnsCacheTtl))

end TpnWorker
