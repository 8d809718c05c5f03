import StaticSite.Markup.Node
import StaticSite.Page

/-!
# Files for crawlers

The map of a site lists the address of each page with the day of its last change and its priority;
the rules for crawlers name that map.
-/

namespace StaticSite.Page

open Markup (Node)

/-- The day of the last change; a page without one has changed now. -/
def lastChange (page : Page) (now : DateTime) : String :=
  Value.dayText {} ((page.updatedAt.map Value.str).getD .null) now

def sitemapEntry (base : String) (now : DateTime) (page : Page) : Node :=
  .element "url" []
    [Markup.line, .element "loc" [] [.text (page.address base)],
     Markup.line, .element "lastmod" [] [.ready (page.lastChange now)],
     Markup.line, .element "priority" [] [.text page.priority], Markup.line]

def sitemapHeader : String :=
  "<?xml version=\"1.0\" encoding=\"UTF-8\"?>\n" ++
    "<urlset xmlns=\"http://www.sitemaps.org/schemas/sitemap/0.9\">\n"

/-- The map of the pages in their order. -/
def sitemap (pages : List Page) (base : String) (now : DateTime) : String :=
  let entries := pages.flatMap fun page => [sitemapEntry base now page, Markup.line]
  sitemapHeader ++ Markup.writeAll entries ++ "</urlset>\n"

def robots (base : String) : String :=
  "User-agent: *\nAllow: /\n\nSitemap: " ++ joinAddress base "sitemap.xml" ++ "\n"

end StaticSite.Page
