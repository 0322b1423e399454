import Mathlib.Data.List.Nodup

/-!
# Works

What the sources know of works: publications of a source, with the variants in which they can be
obtained.
-/

namespace Qbutt.Content

inductive Source where
  | localBook
  | aniLiberty
  | aniTokyo
  | yummyAnime
  | animeSpirit
  | mangaDex
  | weebCentral
  | nhentai
  | mangaLib
  | ranobeLib
  | ruTor
  | ruTracker
  | nnmClub
  | nyaa
  | rutube
  | vkVideo
  | dodi
  | fitGirl
  | onlineFix
  | freeTP
  | byRut
  | igruha
  | theLastGame
  | limeTorrents
  | x1337
  | royalRoad
  | kakuyomu
  | syosetu
  | estar
  | ranobeHub
  deriving DecidableEq

def Source.id : Source → String
  | localBook => "local_book"
  | aniLiberty => "aniliberty"
  | aniTokyo => "anitokyo"
  | yummyAnime => "yani"
  | animeSpirit => "animespirit"
  | mangaDex => "mangadex"
  | weebCentral => "weebcentral"
  | nhentai => "nhentai"
  | mangaLib => "mangalib"
  | ranobeLib => "ranobelib"
  | ruTor => "rutor"
  | ruTracker => "rutracker"
  | nnmClub => "nnmclub"
  | nyaa => "nyaa"
  | rutube => "rutube"
  | vkVideo => "vkvideo"
  | dodi => "dodi"
  | fitGirl => "fitgirl"
  | onlineFix => "onlinefix"
  | freeTP => "freetp"
  | byRut => "byrut"
  | igruha => "igruha"
  | theLastGame => "thelastgame"
  | limeTorrents => "limetorrents"
  | x1337 => "1337x"
  | royalRoad => "royalroad"
  | kakuyomu => "kakuyomu"
  | syosetu => "syosetu"
  | estar => "estar"
  | ranobeHub => "ranobehub"

def Source.all : List Source :=
  [localBook, aniLiberty, aniTokyo, yummyAnime, animeSpirit, mangaDex, weebCentral, nhentai, mangaLib,
    ranobeLib, ruTor, ruTracker, nnmClub, nyaa, rutube, vkVideo, dodi, fitGirl, onlineFix, freeTP, byRut,
    igruha, theLastGame, limeTorrents, x1337, royalRoad, kakuyomu, syosetu, estar, ranobeHub]

theorem Source.mem_all (source : Source) : source ∈ all := by
  cases source <;> decide

/-- Sources have different identifiers. -/
theorem Source.id_injective : Function.Injective Source.id := by
  have hnodup : (all.map Source.id).Nodup := by decide +kernel
  intro a b h
  exact List.inj_on_of_nodup_map hnodup a.mem_all b.mem_all h

/-- `Category`, in the order of its discriminants. -/
inductive Category where
  | anime
  | manga
  | movies
  | tv
  | video
  | games
  | software
  | books
  deriving DecidableEq

def Category.toNat : Category → ℕ
  | anime => 0
  | manga => 1
  | movies => 2
  | tv => 3
  | video => 4
  | games => 5
  | software => 6
  | books => 7

def Source.categories : Source → List Category
  | localBook => [.books]
  | aniLiberty | aniTokyo | yummyAnime | animeSpirit => [.anime]
  | mangaDex | mangaLib | weebCentral | nhentai => [.manga]
  | ranobeLib => [.books]
  | rutube => [.movies, .tv, .anime]
  | vkVideo => [.video]
  | fitGirl | onlineFix | freeTP | byRut | igruha | theLastGame | dodi => [.games]
  | royalRoad | kakuyomu | syosetu | estar => [.books]
  | ranobeHub => [.books]
  | nyaa => [.anime, .games, .software, .books]
  | ruTor => [.movies, .tv, .anime, .games, .software, .books]
  | limeTorrents | x1337 => [.movies, .tv, .anime, .games, .software, .books]
  | ruTracker => [.movies, .tv, .anime, .games, .software, .books, .manga]
  | nnmClub => [.movies, .software]

inductive Transport where
  | torrent
  | video
  | manga
  | text
  deriving DecidableEq

inductive VideoQuality where
  | p144
  | p240
  | p360
  | p480
  | p720
  | p1080
  deriving DecidableEq

structure PublicationRef where
  source : Source
  id : String
  deriving DecidableEq

inductive VariantSelector where
  | torrent (id : ℕ)
  | torrentHash (infoHash : String)
  | dodiTorrent (id : String)
  | episode (id : String) (quality : VideoQuality)
  | rutube (episodeId rutubeId : String)
  | rutubeVideo
  | vkVideo
  | yummyAnimeVideo (id : ℕ) (episode dubbing player : String) (playerId : ℕ)
  | aniTokyoVideo (id groupId : ℕ) (episode dubbing : String)
  | animeSpiritKodik (playerKind : String) (playerId : ℕ) (episode episodeId episodeHash voice : String)
      (kodikTranslation : String) (subtitled : Bool)
  | mangaTranslation (language : String) (groups : List String)
  | weebCentralPages
  | nhentaiPages
  | libTranslation (branch : Option ℕ)
  | originalText
  | localPages
  | ranobeHubTranslation (branch : String)
  deriving DecidableEq

structure VariantRef where
  publication : PublicationRef
  selector : VariantSelector
  deriving DecidableEq

structure ChapterRef where
  variant : VariantRef
  id : String
  deriving DecidableEq

structure Variant where
  reference : VariantRef
  title : Option String
  transport : Transport
  episode : Option String
  quality : Option String
  translation : Option String
  languages : List String
  player : Option String
  size : Option ℕ
  seeders : Option ℕ
  infoHash : Option String
  reportedVideoAds : Bool
  deriving DecidableEq

/-- `Url`, as it is parsed: `text` is all of it. -/
structure Url where
  text : String
  scheme : String
  host : Option String
  port : Option ℕ
  username : String
  password : Option String
  path : String
  query : Option String
  fragment : Option String
  deriving DecidableEq

structure PublicationNote where
  text : String
  author : Option String
  url : Option Url
  deriving DecidableEq

/-- `Work`; the identifiers are in the order of their names, which are different. -/
structure Work where
  reference : PublicationRef
  title : String
  category : Category
  url : Url
  cover : Option Url
  description : Option String
  notes : List PublicationNote
  year : Option ℕ
  aliases : List String
  identifiers : List (String × String)
  variants : List Variant
  needsInspection : Bool
  deriving DecidableEq

def Work.names (work : Work) : List String := work.title :: work.aliases

end Qbutt.Content
