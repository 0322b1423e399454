import Mathlib.Data.Prod.Lex
import Mathlib.Order.WithBot
import Qbutt.Algorithm.Slots
import Qbutt.Content.Work
import Qbutt.Rust.Str

/-!
# The order of variants

`rank_variants`: variants of a work by language, reported advertisements and quality; seeders only
order torrents among the places that torrents have in a band of equal variants.
-/

namespace Qbutt.Association

open Content

/-- What comes before the first hyphen. -/
def primarySubtag (language : String) : List Char := language.toList.takeWhile (· ≠ '-')

def languageRank (variant : Variant) (preferred : Option String) : ℕ :=
  match preferred with
  | none => 0
  | some preferred =>
    if variant.languages.isEmpty then 1
    else if variant.languages.any fun language => primarySubtag language = primarySubtag preferred
    then 2
    else 0

def qualityHeight (variant : Variant) : ℕ :=
  match variant.quality with
  | none => 0
  | some quality =>
    let label := Rust.toAsciiLowercase (Rust.trim quality.toList)
    if label = "4k".toList then 2160
    else if label = "2k".toList then 1440
    else
      ((Rust.parseU16 (Rust.trimEndMatches label ['p', 'i'])).filter fun height =>
        144 ≤ height && height ≤ 4320).getD 0

/-- The comparison of variants: by language from the highest rank, then those without reported
advertisements, then by height from the greatest. -/
def score (preferred : Option String) (variant : Variant) : ℕᵒᵈ ×ₗ Bool ×ₗ ℕᵒᵈ :=
  toLex (OrderDual.toDual (languageRank variant preferred),
    toLex (variant.reportedVideoAds, OrderDual.toDual (qualityHeight variant)))

def isTorrent (variant : Variant) : Bool := variant.transport = .torrent

/-- Seeders as they are compared: none are less than any number of them. -/
def seederCount (variant : Variant) : WithBot ℕ := variant.seeders

/-- `rank_variants`; `none` is the panic of `expect`. -/
def rankVariants (variants : List Variant) (preferred : Option String) : Option (List Variant) :=
  onBands (score preferred)
    (sortSlots isTorrent fun left right => seederCount right ≤ seederCount left)
    (variants.insertionSort fun left right => score preferred left ≤ score preferred right)

end Qbutt.Association
