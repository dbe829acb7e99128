import DualBank.Crypto.LowS
import DualBank.Ecc.FastReduce
import DualBank.Lib.Pratt

/-!
# The two primes of the curve

The field of SECP256R1 and its group order, by a chain of Pratt certificates.
-/

namespace DualBank.UECC

open Lib

/-- The primes below the field and the order, and these two. -/
def curveChain : List PrattStep :=
  [⟨2, 1, []⟩, ⟨3, 2, [2]⟩, ⟨5, 2, [2, 2]⟩, ⟨17, 3, [2, 2, 2, 2]⟩,
    ⟨257, 3, [2, 2, 2, 2, 2, 2, 2, 2]⟩, ⟨641, 3, [2, 2, 2, 2, 2, 2, 2, 5]⟩,
    ⟨1531, 2, [2, 3, 3, 5, 17]⟩, ⟨65537, 3, [2, 2, 2, 2, 2, 2, 2, 2, 2, 2, 2, 2, 2, 2, 2, 2]⟩,
    ⟨7, 3, [2, 3]⟩, ⟨13, 2, [2, 2, 3]⟩, ⟨53, 2, [2, 2, 13]⟩, ⟨11, 2, [2, 5]⟩,
    ⟨661, 2, [2, 2, 3, 5, 11]⟩, ⟨490463, 14, [2, 7, 53, 661]⟩, ⟨727, 5, [2, 3, 11, 11]⟩,
    ⟨17449, 14, [2, 2, 2, 3, 727]⟩, ⟨6700417, 5, [2, 2, 2, 2, 2, 2, 2, 3, 17449]⟩,
    ⟨241, 7, [2, 2, 2, 2, 3, 5]⟩, ⟨2411, 6, [2, 5, 241]⟩, ⟨23, 5, [2, 11]⟩, ⟨107, 2, [2, 53]⟩,
    ⟨157, 5, [2, 2, 3, 13]⟩, ⟨3769, 7, [2, 2, 2, 3, 157]⟩, ⟨204061199, 11, [2, 11, 23, 107, 3769]⟩,
    ⟨34282281433, 17, [2, 2, 2, 3, 7, 204061199]⟩, ⟨43, 3, [2, 3, 7]⟩, ⟨173, 2, [2, 2, 43]⟩,
    ⟨197, 2, [2, 2, 7, 7]⟩, ⟨919, 7, [2, 3, 3, 3, 17]⟩, ⟨3677, 2, [2, 2, 919]⟩,
    ⟨66417393611, 6, [2, 5, 53, 173, 197, 3677]⟩, ⟨11290956913871, 13, [2, 5, 17, 66417393611]⟩,
    ⟨757, 2, [2, 2, 3, 3, 3, 7]⟩, ⟨18169, 11, [2, 2, 2, 3, 757]⟩, ⟨181, 2, [2, 2, 3, 3, 5]⟩,
    ⟨1087, 3, [2, 3, 181]⟩, ⟨4349, 2, [2, 2, 1087]⟩, ⟨78283, 3, [2, 3, 3, 4349]⟩,
    ⟨313, 10, [2, 2, 2, 3, 13]⟩, ⟨704251, 2, [2, 3, 3, 5, 5, 5, 313]⟩,
    ⟨46076956964474543, 5, [2, 23, 18169, 78283, 704251]⟩,
    ⟨774023187263532362759620327192479577272145303, 3, [2, 3, 3, 2411, 34282281433,
      11290956913871, 46076956964474543]⟩,
    ⟨835945042244614951780389953367877943453916927241, 11, [2, 2, 2, 3, 3, 3, 5,
      774023187263532362759620327192479577272145303]⟩,
    ⟨115792089210356248762697446949407573530086143415290314195533631308867097853951, 6, [2, 3,
      5, 5, 17, 257, 641, 1531, 65537, 490463, 6700417,
      835945042244614951780389953367877943453916927241]⟩,
    ⟨71, 7, [2, 5, 7]⟩, ⟨131, 2, [2, 5, 13]⟩, ⟨31, 3, [2, 3, 5]⟩, ⟨373, 2, [2, 2, 3, 31]⟩,
    ⟨3407, 5, [2, 13, 131]⟩, ⟨37, 2, [2, 2, 3, 3]⟩, ⟨9547, 2, [2, 3, 37, 43]⟩,
    ⟨38189, 2, [2, 2, 9547]⟩, ⟨19, 2, [2, 3, 3]⟩, ⟨229, 6, [2, 2, 3, 19]⟩,
    ⟨1201, 11, [2, 2, 2, 2, 3, 5, 5]⟩, ⟨9350987, 2, [2, 17, 229, 1201]⟩,
    ⟨187019741, 2, [2, 2, 5, 9350987]⟩, ⟨29, 2, [2, 2, 7]⟩, ⟨311, 17, [2, 5, 31]⟩,
    ⟨311245691, 2, [2, 5, 7, 17, 29, 29, 311]⟩, ⟨622491383, 5, [2, 311245691]⟩, ⟨263, 5, [2, 131]⟩,
    ⟨126241, 7, [2, 2, 2, 2, 2, 3, 5, 263]⟩, ⟨337, 10, [2, 2, 2, 2, 3, 7]⟩,
    ⟨104471, 11, [2, 5, 31, 337]⟩, ⟨3969899, 2, [2, 19, 104471]⟩,
    ⟨1002328039319, 19, [2, 126241, 3969899]⟩, ⟨1297, 10, [2, 2, 2, 2, 3, 3, 3, 3]⟩,
    ⟨97, 5, [2, 2, 2, 2, 2, 3]⟩, ⟨16879, 3, [2, 3, 29, 97]⟩, ⟨127, 3, [2, 3, 3, 7]⟩,
    ⟨151, 6, [2, 3, 5, 5]⟩, ⟨1511, 11, [2, 5, 151]⟩, ⟨3023, 5, [2, 1511]⟩, ⟨41, 6, [2, 2, 2, 5]⟩,
    ⟨155317, 5, [2, 2, 3, 7, 43, 43]⟩, ⟨191039911, 3, [2, 3, 5, 41, 155317]⟩,
    ⟨208150935158385979, 2, [2, 3, 11, 43, 127, 3023, 191039911]⟩,
    ⟨2624747550333869278416773953, 7, [2, 2, 2, 2, 2, 2, 3, 3, 1297, 16879, 208150935158385979]⟩,
    ⟨115792089210356248762697446949407573529996955224135760342422259061068512044369, 7, [2, 2,
      2, 2, 3, 71, 131, 373, 3407, 17449, 38189, 187019741, 622491383, 1002328039319,
      2624747550333869278416773953]⟩]

theorem curveChain_test : PrattStep.testChain [] curveChain = true := by decide +kernel

theorem prime_of_mem_curveChain {p : Nat} (hp : p ∈ curveChain.map PrattStep.p) : p.Prime := by
  obtain ⟨s, hs, rfl⟩ := List.mem_map.1 hp
  exact PrattStep.prime_of_testChain (fun _ h ↦ absurd h List.not_mem_nil) curveChain_test s hs

theorem prime_prime : prime.Prime := prime_of_mem_curveChain (by decide)

theorem curveOrder_prime : curveOrder.Prime := prime_of_mem_curveChain (by decide)

instance : Fact prime.Prime := ⟨prime_prime⟩

instance : Fact curveOrder.Prime := ⟨curveOrder_prime⟩

/-- `curve_secp256r1.n`. -/
def curveN : Vli 8 :=
  vliOfWords 0xFC632551 0xF3B9CAC2 0xA7179E84 0xBCE6FAAD 0xFFFFFFFF 0xFFFFFFFF 0x00000000 0xFFFFFFFF

theorem toNat_curveN : curveN.toNat = curveOrder := rfl

end DualBank.UECC
